import Krafters.Executor.Parser
import Krafters.TestDaemon.TestManager
import Mathlib.Algebra.Order.Field.Rat
import Mathlib.Data.List.Sort
import Mathlib.Order.Bounds.Basic
import Mathlib.Tactic.Positivity

/-!
# generate_plots.generateMassPlot is the empirical distribution

The curve of a row has one point more than the row has times: 0 with the height 0, then the
sorted times with the heights 1/n to n/n.  A time is at most `t` exactly if its place is below
the number of times that are, so that the last point up to `t` has their fraction as its height:

    0 ≤ t → IsGreatest {y | (x, y) a point, x ≤ t} (fraction times t)

A row without times has no curve: the heights are divided by 0.
-/

namespace Plots

open Py

/-! ## Sorted lists -/

section Sorted

variable {α : Type} [LinearOrder α] {v : List α}

/-- The elements up to `t` are the first ones of a sorted list. -/
theorem getElem?_le_iff (hv : v.Pairwise (· ≤ ·)) (t : α) {j : ℕ} {x : α} (hx : v[j]? = some x) :
    x ≤ t ↔ j < v.countP (· ≤ t) := by
  induction v generalizing j with
  | nil => cases hx
  | cons a v ih =>
    obtain ⟨ha, hv⟩ := List.pairwise_cons.mp hv
    by_cases hat : a ≤ t
    · rw [List.countP_cons_of_pos (by simpa using hat)]
      cases j with
      | zero =>
        obtain rfl := Option.some.inj hx
        exact iff_of_true hat (Nat.succ_pos _)
      | succ j =>
        rw [ih hv hx]
        omega
    · have hnone : v.countP (· ≤ t) = 0 := List.countP_eq_zero.mpr fun b hb hbt =>
        hat ((ha b hb).trans (by simpa using hbt))
      rw [List.countP_cons_of_neg (by simpa using hat), hnone]
      refine iff_of_false (fun hxt => hat (le_trans ?_ hxt)) (Nat.not_lt_zero j)
      rcases List.mem_cons.mp (List.mem_of_getElem? hx) with rfl | hmem
      · exact le_rfl
      · exact ha x hmem

end Sorted

/-! ## Algorithm -/

/-- `i / n`; `none` is `ZeroDivisionError`. -/
def divide (i n : ℕ) : Option ℚ := if n = 0 then none else some (i / n)

/-- What `plt.plot` is given. -/
structure Curve where
  label : Text
  xAxis : List ℚ
  yAxis : List ℚ

/-- The curve of a row, from its label and its times. -/
def massCurve (label : Text) (raw : List ℚ) : Option Curve := do
  let yAxis ← (List.range (raw.length + 1)).mapM fun i => divide i raw.length
  let values := raw.mergeSort (· ≤ ·)
  return { label, xAxis := 0 :: values, yAxis }

def generateMassPlot (test : List (Text × List ℚ)) : Option (List Curve) :=
  test.mapM fun row => massCurve row.1 row.2

/-! ## Specification -/

/-- The fraction of the times that are at most `t`. -/
def fraction (times : List ℚ) (t : ℚ) : ℚ := times.countP (· ≤ t) / times.length

/-- The curve is the empirical distribution function of the times. -/
structure Empirical (times : List ℚ) (curve : Curve) : Prop where
  length_eq : curve.xAxis.length = curve.yAxis.length
  x_mono : curve.xAxis.Pairwise (· ≤ ·)
  y_mono : curve.yAxis.Pairwise (· ≤ ·)
  y_mem : ∀ y ∈ curve.yAxis, 0 ≤ y ∧ y ≤ 1
  value : ∀ t, 0 ≤ t →
    IsGreatest {y | ∃ x, (x, y) ∈ curve.xAxis.zip curve.yAxis ∧ x ≤ t} (fraction times t)

/-! ## Lemmas -/

/-- The heights of a row with `n` times. -/
def heights (n : ℕ) : List ℚ := (List.range (n + 1)).map fun i : ℕ => (i : ℚ) / n

theorem massCurve_eq (label : Text) {raw : List ℚ} (hne : 0 < raw.length) :
    massCurve label raw = some ⟨label, 0 :: raw.mergeSort (· ≤ ·), heights raw.length⟩ := by
  have hdivide : (fun i => divide i raw.length) = fun i : ℕ => pure ((i : ℚ) / raw.length) := by
    funext i
    exact if_neg (by omega)
  unfold massCurve heights
  rw [hdivide, List.mapM_pure]
  rfl

theorem massCurve_nil (label : Text) : massCurve label [] = none := rfl

theorem getElem?_heights {n i : ℕ} {y : ℚ} :
    (heights n)[i]? = some y ↔ i ≤ n ∧ y = (i : ℚ) / n := by
  unfold heights
  rw [List.getElem?_map]
  by_cases hi : i < n + 1
  · rw [List.getElem?_range hi, Option.map_some, Option.some.injEq]
    exact ⟨fun h => ⟨by omega, h.symm⟩, fun h => h.2.symm⟩
  · rw [List.getElem?_eq_none (by rw [List.length_range]; omega), Option.map_none]
    exact iff_of_false (fun h => nomatch h) fun h => hi (by omega)

/-- A point of the curve is its first one, or a time with its place from 1 on. -/
theorem mem_points {v : List ℚ} {n : ℕ} {x y : ℚ} : (x, y) ∈ (0 :: v).zip (heights n) ↔
    ∃ i ≤ n, y = (i : ℚ) / n ∧ (i = 0 ∧ x = 0 ∨ ∃ j, i = j + 1 ∧ v[j]? = some x) := by
  rw [List.mem_iff_getElem?]
  simp only [List.getElem?_zip_eq_some, getElem?_heights]
  apply exists_congr
  intro i
  cases i with
  | zero =>
    rw [List.getElem?_cons_zero, Option.some.injEq]
    constructor
    · rintro ⟨hx, hi, hy⟩
      exact ⟨hi, hy, .inl ⟨rfl, hx.symm⟩⟩
    · rintro ⟨hi, hy, ⟨-, hx⟩ | ⟨j, hj, -⟩⟩
      · exact ⟨hx.symm, hi, hy⟩
      · omega
  | succ j =>
    rw [List.getElem?_cons_succ]
    constructor
    · rintro ⟨hx, hi, hy⟩
      exact ⟨hi, hy, .inr ⟨j, rfl, hx⟩⟩
    · rintro ⟨hi, hy, ⟨h, -⟩ | ⟨j', hj, hx⟩⟩
      · omega
      · obtain rfl : j = j' := by omega
        exact ⟨hx, hi, hy⟩

theorem heights_mono (n : ℕ) : (heights n).Pairwise (· ≤ ·) := by
  unfold heights
  rw [List.pairwise_map]
  refine List.Pairwise.imp (fun hlt => ?_) List.pairwise_lt_range
  exact div_le_div_of_nonneg_right (Nat.cast_le.mpr (Nat.le_of_lt hlt)) (Nat.cast_nonneg n)

theorem heights_mem {n : ℕ} {y : ℚ} (h : y ∈ heights n) : 0 ≤ y ∧ y ≤ 1 := by
  obtain ⟨i, hi⟩ := List.mem_iff_getElem?.mp h
  obtain ⟨hle, rfl⟩ := getElem?_heights.mp hi
  exact ⟨by positivity, div_le_one_of_le₀ (Nat.cast_le.mpr hle) (Nat.cast_nonneg n)⟩

/-- **The height of the last point up to `t`.** -/
theorem isGreatest_fraction (times : List ℚ) {t : ℚ} (ht : 0 ≤ t) :
    IsGreatest {y | ∃ x, (x, y) ∈ (0 :: times.mergeSort (· ≤ ·)).zip (heights times.length) ∧ x ≤ t}
      (fraction times t) := by
  have hsorted : (times.mergeSort (· ≤ ·)).Pairwise (· ≤ ·) :=
    List.pairwise_mergeSort' (· ≤ ·) times
  have hcount : (times.mergeSort (· ≤ ·)).countP (· ≤ t) = times.countP (· ≤ t) :=
    (List.mergeSort_perm times _).countP_eq _
  have hle : times.countP (· ≤ t) ≤ times.length := List.countP_le_length
  constructor
  · cases hc : times.countP (· ≤ t) with
    | zero =>
      exact ⟨0, mem_points.mpr ⟨0, Nat.zero_le _, by rw [fraction, hc], .inl ⟨rfl, rfl⟩⟩, ht⟩
    | succ j =>
      have hj : j < (times.mergeSort (· ≤ ·)).length := by
        rw [List.length_mergeSort]
        omega
      have hx := List.getElem?_eq_getElem hj
      refine ⟨_, mem_points.mpr ⟨j + 1, by omega, by rw [fraction, hc], .inr ⟨j, rfl, hx⟩⟩, ?_⟩
      rw [getElem?_le_iff hsorted t hx, hcount, hc]
      exact Nat.lt_succ_self j
  · rintro y ⟨x, hpoint, hxt⟩
    obtain ⟨i, -, rfl, hi⟩ := mem_points.mp hpoint
    have hi : i ≤ times.countP (· ≤ t) := by
      rcases hi with ⟨rfl, -⟩ | ⟨j, rfl, hx⟩
      · exact Nat.zero_le _
      · rw [getElem?_le_iff hsorted t hx, hcount] at hxt
        exact hxt
    exact div_le_div_of_nonneg_right (Nat.cast_le.mpr hi) (Nat.cast_nonneg _)

theorem empirical_massCurve (label : Text) {times : List ℚ} (hpos : ∀ t ∈ times, 0 ≤ t) :
    Empirical times ⟨label, 0 :: times.mergeSort (· ≤ ·), heights times.length⟩ where
  length_eq := by simp [heights]
  x_mono := List.pairwise_cons.mpr ⟨fun t ht => hpos t (List.mem_mergeSort.mp ht),
    List.pairwise_mergeSort' (· ≤ ·) times⟩
  y_mono := heights_mono _
  y_mem _ := heights_mem
  value _ := isGreatest_fraction times

/-! ## Top theorem -/

/-- The curves of all rows, each the distribution of its times. -/
def Plotted (test : List (Text × List ℚ)) : Prop :=
  ∃ curves, generateMassPlot test = some curves ∧
    List.Forall₂ (fun row curve => curve.label = row.1 ∧ Empirical row.2 curve) test curves

/-- **The mass plot is the empirical distribution function** of every row exactly if every row
has a time, that is, if no run was asked for 0 operations. -/
theorem mass_plot_iff (test : List (Text × List ℚ)) (hpos : ∀ row ∈ test, ∀ t ∈ row.2, 0 ≤ t) :
    Plotted test ↔ ∀ row ∈ test, 0 < row.2.length := by
  induction test with
  | nil => exact iff_of_true ⟨[], rfl, .nil⟩ fun row hrow => nomatch hrow
  | cons row test ih =>
    obtain ⟨label, times⟩ := row
    obtain ⟨hrow, htest⟩ := List.forall_mem_cons.mp hpos
    have hcons : generateMassPlot ((label, times) :: test) =
        (massCurve label times).bind fun curve => (generateMassPlot test).map (curve :: ·) := by
      unfold generateMassPlot
      rw [List.mapM_cons]
      cases massCurve label times with
      | none => rfl
      | some curve => cases test.mapM fun row => massCurve row.1 row.2 <;> rfl
    rw [List.forall_mem_cons, ← ih htest]
    unfold Plotted
    rw [hcons]
    constructor
    · rintro ⟨_, hplot, hall⟩
      obtain ⟨curve, hcurve, hrest⟩ := Option.bind_eq_some_iff.mp hplot
      obtain ⟨curves, hcurves, rfl⟩ := Option.map_eq_some_iff.mp hrest
      refine ⟨List.length_pos_iff.mpr ?_, curves, hcurves, (List.forall₂_cons.mp hall).2⟩
      rintro rfl
      rw [massCurve_nil] at hcurve
      cases hcurve
    · rintro ⟨hne, curves, hplot, hall⟩
      refine ⟨_ :: curves, ?_, .cons ⟨rfl, empirical_massCurve label hrow⟩ hall⟩
      rw [massCurve_eq label hne, hplot]
      rfl

/-- A time of 0 and two that are equal. -/
theorem mass_plot_iff_three : Plotted [("pso_ties".toList, [3, 0, 3])] :=
  (mass_plot_iff [("pso_ties".toList, [3, 0, 3])] (by decide)).mpr (by decide)

/-- "run 0" is a run line, and its row has no curve. -/
theorem not_plotted :
    Executor.Parser.lineKind "run 0".toList = .command (.runCommand 0 "no_name".toList) ∧
    (∀ attempts d, TestDaemon.run (TestDaemon.appendFunction .paxos) 0 attempts [] d = some []) ∧
    ¬ Plotted [("paxos_no_name".toList, [])] := by
  refine ⟨by decide +kernel, fun attempts d => ?_, ?_⟩
  · unfold TestDaemon.run
    rfl
  · rintro ⟨curves, hplot, -⟩
    cases hplot

end Plots

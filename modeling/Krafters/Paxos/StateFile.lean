import Krafters.Lib.Text
import Krafters.Paxos.ReplicatedValue
import Mathlib.Logic.Relation

/-!
# The state file of a replicated value

`save_state` writes a temporary file, syncs it and renames it to the state file; `load_state`
makes the state file where there is none, without a sync.  The process may be killed between any
two bytes, and power may fail, which cuts what was not synced and may undo the last renames, since
nothing syncs the directory.

    what a start reads = the state of the last rename that was not undone      (starts_with_stored)

or, as long as none was saved, nothing that is JSON, if the first text of the file was cut.
-/

namespace Paxos

/-! ## Algorithm -/

/-- `json.dumps` of the five attributes, and `json.loads` with `to_pid`. -/
structure StateText (U V : Type) where
  dumps : Saved U V → List Char
  loads : List Char → Option (Saved U V)
  loads_dumps : ∀ s, loads (dumps s) = some s
  /-- the text of an object is not cut to one -/
  loads_part : ∀ s part, part <+: dumps s → part ≠ dumps s → loads part = none

structure StateFile where
  content : List Char
  synced : Bool

/-- Where the process is in `load_state` and `save_state`. -/
inductive Stage (U V : Type)
  | off
  /-- writing the first text of the state file -/
  | creating
  | reading
  | running (attributes : Saved U V)
  /-- writing the temporary file -/
  | saving (attributes : Saved U V)
  /-- before `os.rename` -/
  | synced (attributes : Saved U V)

/-- An entry of the directory for the state file. -/
structure Version (U V : Type) where
  file : Option StateFile
  /-- what was saved up to the rename that made it -/
  saves : List (Saved U V)

structure Disk (U V : Type) where
  stateFile : Option StateFile
  tmp : Option StateFile
  stage : Stage U V
  /-- what was saved so far, without the renames that power failures undid -/
  saves : List (Saved U V)
  /-- the earlier entries, to which power failure may go back -/
  earlier : List (Version U V)

namespace Disk

variable {U V : Type}

def initial : Disk U V := ⟨none, none, .off, [], []⟩

def version (d : Disk U V) : Version U V := ⟨d.stateFile, d.saves⟩

/-- The state file as `ReplicatedValue` has it. -/
def stored (d : Disk U V) : Saved U V := d.saves.getLast?.getD .fresh

/-- What becomes of a file when power fails. -/
inductive Survives : Option StateFile → Option StateFile → Prop
  | synced {content : List Char} : Survives (some ⟨content, true⟩) (some ⟨content, true⟩)
  | cut {content part : List Char} (h : part <+: content) :
      Survives (some ⟨content, false⟩) (some ⟨part, true⟩)
  | lost {file : Option StateFile} (h : ∀ f, file = some f → f.synced = false) :
      Survives file none

inductive Step (j : StateText U V) : Disk U V → Disk U V → Prop
  /-- `open(self.state_file, 'w')` -/
  | create {d : Disk U V} (hs : d.stage = .off) (hf : d.stateFile = none) :
      Step j d { d with
        stateFile := some ⟨[], false⟩, stage := .creating, earlier := d.version :: d.earlier }
  | createWrite {d : Disk U V} {content part : List Char} (hs : d.stage = .creating)
      (hf : d.stateFile = some ⟨content, false⟩) (hc : content <+: part)
      (hp : part <+: j.dumps .fresh) : Step j d { d with stateFile := some ⟨part, false⟩ }
  | created {d : Disk U V} (hs : d.stage = .creating)
      (hf : d.stateFile = some ⟨j.dumps .fresh, false⟩) : Step j d { d with stage := .reading }
  | start {d : Disk U V} {f : StateFile} (hs : d.stage = .off) (hf : d.stateFile = some f) :
      Step j d { d with stage := .reading }
  | load {d : Disk U V} {f : StateFile} {attributes : Saved U V} (hs : d.stage = .reading)
      (hf : d.stateFile = some f) (hl : j.loads f.content = some attributes) :
      Step j d { d with stage := .running attributes }
  /-- `json.loads` raises and the process ends -/
  | loadError {d : Disk U V} {f : StateFile} (hs : d.stage = .reading)
      (hf : d.stateFile = some f) (hl : j.loads f.content = none) : Step j d { d with stage := .off }
  /-- `open(tmp, 'w')` -/
  | save {d : Disk U V} {before : Saved U V} (attributes : Saved U V)
      (hs : d.stage = .running before) :
      Step j d { d with tmp := some ⟨[], false⟩, stage := .saving attributes }
  | write {d : Disk U V} {attributes : Saved U V} {content part : List Char}
      (hs : d.stage = .saving attributes) (hf : d.tmp = some ⟨content, false⟩)
      (hc : content <+: part) (hp : part <+: j.dumps attributes) :
      Step j d { d with tmp := some ⟨part, false⟩ }
  /-- the file system gives an error, and the attributes are set all the same -/
  | saveError {d : Disk U V} {attributes : Saved U V}
      (hs : d.stage = .saving attributes ∨ d.stage = .synced attributes) :
      Step j d { d with stage := .running attributes }
  /-- `os.fsync` -/
  | fsync {d : Disk U V} {attributes : Saved U V} (hs : d.stage = .saving attributes)
      (hf : d.tmp = some ⟨j.dumps attributes, false⟩) :
      Step j d { d with tmp := some ⟨j.dumps attributes, true⟩, stage := .synced attributes }
  /-- `os.rename` -/
  | rename {d : Disk U V} {attributes : Saved U V} (hs : d.stage = .synced attributes) :
      Step j d { d with
        stateFile := d.tmp, tmp := none, stage := .running attributes
        saves := d.saves ++ [attributes], earlier := d.version :: d.earlier }
  | kill {d : Disk U V} : Step j d { d with stage := .off }
  | powerFailure {d : Disk U V} {v : Version U V} {stateFile tmp : Option StateFile}
      (hv : v ∈ d.version :: d.earlier) (hf : Survives v.file stateFile) :
      Step j d ⟨stateFile, tmp, .off, v.saves, []⟩

def Reachable (j : StateText U V) (d : Disk U V) : Prop := Relation.ReflTransGen (Step j) initial d

end Disk

/-! ## Lemmas -/

namespace Version

variable {U V : Type} {j : StateText U V}

structure Whole (j : StateText U V) (v : Version U V) : Prop where
  saved : ∀ last, v.saves.getLast? = some last → v.file = some ⟨j.dumps last, true⟩
  fresh : v.saves = [] → ∀ f, v.file = some f → f.content <+: j.dumps .fresh

theorem Whole.survives {v : Version U V} (h : v.Whole j) {file : Option StateFile}
    (hf : Disk.Survives v.file file) : Whole j ⟨file, v.saves⟩ := by
  obtain ⟨before, saves⟩ := v
  refine ⟨fun last hl => ?_, fun hnone f heq => ?_⟩
  · obtain rfl := h.saved last hl
    cases hf with
    | synced => rfl
    | lost hn => cases hn _ rfl
  · have hfresh := h.fresh hnone
    dsimp only at heq
    subst heq
    cases hf with
    | synced => exact hfresh _ rfl
    | cut hp => exact hp.trans (hfresh _ rfl)

end Version

namespace Disk

variable {U V : Type} {j : StateText U V} {d d' : Disk U V}

structure Inv (j : StateText U V) (d : Disk U V) : Prop where
  versions : ∀ v ∈ d.version :: d.earlier, v.Whole j
  creating : d.stage = .creating → d.saves = []
  reading : d.stage = .reading → d.stateFile.isSome = true
  synced : ∀ attributes, d.stage = .synced attributes →
    d.tmp = some ⟨j.dumps attributes, true⟩

theorem Inv.whole (h : d.Inv j) : d.version.Whole j := h.versions _ List.mem_cons_self

/-- A step that leaves the state file alone. -/
theorem Inv.stage (h : d.Inv j) {tmp : Option StateFile} {stage : Stage U V}
    (hc : stage ≠ .creating) (hr : stage = .reading → d.stateFile.isSome = true)
    (hn : ∀ attributes, stage = .synced attributes → tmp = some ⟨j.dumps attributes, true⟩) :
    ({ d with tmp, stage } : Disk U V).Inv j :=
  ⟨h.versions, fun heq => absurd heq hc, hr, hn⟩

theorem Inv.step (h : d.Inv j) (hstep : Step j d d') : d'.Inv j := by
  have stays : d.stage = .reading → d.stateFile.isSome = true := h.reading
  cases hstep with
  | create hs hf =>
    have hnone : d.saves = [] := by
      by_contra hne
      obtain ⟨last, hl⟩ := Option.ne_none_iff_exists'.mp (mt List.getLast?_eq_none_iff.mp hne)
      cases hf.symm.trans (h.whole.saved last hl)
    refine ⟨List.forall_mem_cons.mpr ⟨⟨fun last hl => ?_, fun _ f heq => ?_⟩, h.versions⟩,
      fun _ => hnone, nofun, nofun⟩
    · cases hl.symm.trans (congrArg List.getLast? hnone)
    · obtain rfl := Option.some_inj.mp heq
      exact List.nil_prefix
  | createWrite hs hf hc hp =>
    have hnone := h.creating hs
    refine ⟨List.forall_mem_cons.mpr ⟨⟨fun last hl => ?_, fun _ f heq => ?_⟩,
      (List.forall_mem_cons.mp h.versions).2⟩, fun _ => hnone, fun _ => rfl, fun x hx => ?_⟩
    · cases hl.symm.trans (congrArg List.getLast? hnone)
    · obtain rfl := Option.some_inj.mp heq
      exact hp
    · cases hs.symm.trans hx
  | created hs hf => exact h.stage nofun (fun _ => by rw [hf]; rfl) nofun
  | start hs hf => exact h.stage nofun (fun _ => by rw [hf]; rfl) nofun
  | load hs hf hl => exact h.stage nofun nofun nofun
  | loadError hs hf hl => exact h.stage nofun nofun nofun
  | save attributes hs => exact h.stage nofun nofun nofun
  | write hs hf hc hp =>
    exact ⟨h.versions, h.creating, stays, fun x hx => by cases hs.symm.trans hx⟩
  | saveError hs => exact h.stage nofun nofun nofun
  | fsync hs hf =>
    refine h.stage nofun nofun fun x hx => ?_
    cases hx
    rfl
  | rename hs =>
    refine ⟨List.forall_mem_cons.mpr ⟨⟨fun last hl => ?_, fun hnone => ?_⟩, h.versions⟩,
      nofun, nofun, nofun⟩
    · cases List.getLast?_concat.symm.trans hl
      exact h.synced _ hs
    · cases List.append_ne_nil_of_right_ne_nil _ (List.cons_ne_nil _ _) hnone
  | kill => exact h.stage nofun nofun nofun
  | powerFailure hv hf =>
    exact ⟨List.forall_mem_cons.mpr ⟨(h.versions _ hv).survives hf,
      fun _ hm => absurd hm List.not_mem_nil⟩, nofun, nofun, nofun⟩

theorem Reachable.inv (h : Reachable j d) : d.Inv j := by
  induction h with
  | refl =>
    exact ⟨List.forall_mem_cons.mpr ⟨⟨nofun, fun _ => nofun⟩,
      fun _ hm => absurd hm List.not_mem_nil⟩, nofun, nofun, nofun⟩
  | tail _ hstep ih => exact ih.step hstep

/-! ## Top theorems -/

/-- **A start reads what was saved last**, wherever the process was killed, and after a power
failure what was saved last before some point, never a part of it; or nothing was saved and the
first text of the file was cut. -/
theorem starts_with_stored (h : Reachable j d) (hs : d.stage = .reading) :
    ∃ f, d.stateFile = some f ∧ (j.loads f.content = some d.stored ∨
      d.saves = [] ∧ f.content <+: j.dumps .fresh ∧ f.content ≠ j.dumps .fresh ∧
        j.loads f.content = none) := by
  have hinv := h.inv
  obtain ⟨f, hf⟩ := Option.isSome_iff_exists.mp (hinv.reading hs)
  refine ⟨f, hf, ?_⟩
  unfold stored
  cases hlast : d.saves.getLast? with
  | some last =>
    obtain rfl := Option.some_inj.mp (hf.symm.trans (hinv.whole.saved last hlast))
    exact .inl (j.loads_dumps last)
  | none =>
    have hnone := List.getLast?_eq_none_iff.mp hlast
    have hpart := hinv.whole.fresh hnone f hf
    by_cases hwhole : f.content = j.dumps .fresh
    · rw [hwhole]
      exact .inl (j.loads_dumps _)
    · exact .inr ⟨hnone, hpart, hwhole, j.loads_part _ _ hpart hwhole⟩

end Disk

/-! The text of a state of values, without ids. -/

section Values

open Py

def valueText : Option ℕ → Text
  | none => "null".toList
  | some n => natText n

/-- The text but for the last brace. -/
def valuesFront (s : Saved Empty ℕ) : Text :=
  "\x7b\"promised_id\": null, \"accepted_id\": null, \"instance_number\": ".toList ++
    (natText s.instanceNumber ++ ',' :: (" \"accepted_value\": ".toList ++
      (valueText s.acceptedValue ++ ',' :: (" \"current_value\": ".toList ++
        valueText s.currentValue))))

theorem notMem_natText {c : Char} (hc : isAsciiDigit c = false) (n : ℕ) : c ∉ natText n :=
  fun hmem => Bool.false_ne_true (hc.symm.trans (isAsciiDigit_of_mem_natText hmem))

theorem notMem_valueText {c : Char} (hc : isAsciiDigit c = false) (hn : c ∉ "null".toList)
    (value : Option ℕ) : c ∉ valueText value := by
  cases value with
  | none => exact hn
  | some n => exact notMem_natText hc n

theorem valueText_injective : Function.Injective valueText := by
  have hnull (n : ℕ) : "null".toList ≠ natText n := fun h =>
    notMem_natText (c := 'n') (by decide) n (h ▸ by decide)
  intro value value' h
  cases value <;> cases value'
  · rfl
  · exact absurd h (hnull _)
  · exact absurd h.symm (hnull _)
  · exact congrArg some (natText_injective h)

theorem eq_of_cut {c : Char} {a b r r' : Text} (ha : c ∉ a) (hb : c ∉ b)
    (h : a ++ c :: r = b ++ c :: r') : a = b ∧ r = r' := by
  have first {x : Text} (hx : c ∉ x) (y : Text) : (x ++ c :: y).takeWhile (· != c) = x := by
    rw [List.takeWhile_append_of_pos, List.takeWhile_cons_of_neg, List.append_nil]
    · simp
    · intro d hd
      exact bne_iff_ne.mpr fun heq => hx (heq ▸ hd)
  obtain rfl : a = b := by rw [← first ha r, h, first hb r']
  exact ⟨rfl, (List.cons.inj (List.append_cancel_left h)).2⟩

theorem valuesFront_injective : Function.Injective valuesFront := by
  have noId (p : WithBot (ProposalID Empty)) : p = ⊥ := by
    cases p with
    | bot => rfl
    | coe id => exact id.uid.elim
  rintro ⟨i, v, p, q, w⟩ ⟨i', v', p', q', w'⟩ h
  obtain ⟨hi, h⟩ := eq_of_cut (notMem_natText (by decide) _) (notMem_natText (by decide) _)
    (List.append_cancel_left h)
  obtain ⟨hw, h⟩ := eq_of_cut (notMem_valueText (by decide) (by decide) _)
    (notMem_valueText (by decide) (by decide) _) (List.append_cancel_left h)
  obtain rfl := natText_injective hi
  obtain rfl := valueText_injective hw
  obtain rfl := valueText_injective (List.append_cancel_left h)
  rw [noId p, noId q, noId p', noId q']

theorem notMem_valuesFront (s : Saved Empty ℕ) : '\x7d' ∉ valuesFront s := by
  unfold valuesFront
  simp only [List.mem_append, List.mem_cons, not_or]
  refine ⟨by decide, notMem_natText (by decide) _, by decide, by decide,
    notMem_valueText (by decide) (by decide) _, by decide, by decide,
    notMem_valueText (by decide) (by decide) _⟩

open Classical in
noncomputable def valuesText : StateText Empty ℕ where
  dumps s := valuesFront s ++ ['\x7d']
  loads text := if h : ∃ s, valuesFront s ++ ['\x7d'] = text then some h.choose else none
  loads_dumps s := by
    have h : ∃ s', valuesFront s' ++ ['\x7d'] = valuesFront s ++ ['\x7d'] := ⟨s, rfl⟩
    rw [dif_pos h]
    exact congrArg some (valuesFront_injective (List.append_cancel_right h.choose_spec))
  loads_part s part hpart hne := by
    refine dif_neg ?_
    rintro ⟨s', rfl⟩
    -- the last brace would stand before the last brace
    rcases List.prefix_concat_iff.mp hpart with heq | hfront
    · exact hne heq
    · exact notMem_valuesFront s (hfront.subset (List.mem_append_right _ List.mem_cons_self))

end Values

namespace Disk

/-- A node that adopts 7 and is killed, and starts again. -/
theorem starts_with_stored_saved : ∃ d : Disk Empty ℕ, d.stage = .reading ∧
    d.saves = [⟨1, some 7, ⊥, ⊥, none⟩] ∧ ∃ f, d.stateFile = some f ∧
      (valuesText.loads f.content = some d.stored ∨
        d.saves = [] ∧ f.content <+: valuesText.dumps .fresh ∧
          f.content ≠ valuesText.dumps .fresh ∧ valuesText.loads f.content = none) := by
  have hopened : Reachable valuesText _ := .tail .refl (.create rfl rfl)
  have hwritten := hopened.tail (.createWrite rfl rfl List.nil_prefix List.prefix_rfl)
  have hcreated := hwritten.tail (.created rfl rfl)
  have hrunning := hcreated.tail (.load rfl rfl (valuesText.loads_dumps .fresh))
  have hsaving := hrunning.tail (.save ⟨1, some 7, ⊥, ⊥, none⟩ rfl)
  have htmp := hsaving.tail (.write rfl rfl List.nil_prefix List.prefix_rfl)
  have hsynced := htmp.tail (.fsync rfl rfl)
  have hsaved := hsynced.tail (.rename rfl)
  have hstarted := (hsaved.tail .kill).tail (.start rfl rfl)
  exact ⟨_, rfl, rfl, starts_with_stored hstarted rfl⟩

end Disk

end Paxos

import Krafters.Executor.ParserForms
import Krafters.Lib.Csv
import Mathlib.Data.Fin.Basic

/-!
# The csv file between `Executor.run_command` and `generate_plots.main`

The file is written in the default dialect, which quotes with '"', and read by a reader that
quotes with '|'.  The two agree on fields that need no quotes: the label of a row is the only
field that may, since a run line can carry any word as its label.

    ReadsBack F algorithm rows ↔ every label of the file is Clean

A quoted label is read with its quotes, as a field that begins with '"'.
-/

namespace Plots

open Py Csv Executor

/-! ## Algorithm -/

/-- `CONSENSUS_ALGORITHMS` of the provisioner. -/
inductive Algorithm
  | pso
  | paxos
  | rethinkdb
  | datastore
deriving DecidableEq, Repr

def Algorithm.name : Algorithm → Text
  | .pso => "pso".toList
  | .paxos => "paxos".toList
  | .rethinkdb => "rethinkdb".toList
  | .datastore => "datastore".toList

/-- Letters that the `repr` of a float has: those of decimal numbers with exponents, of "inf"
and of "nan". -/
def floatLetters : Text := "0123456789.e+-infa".toList

/-- The floats of Python, with their texts. -/
structure FloatFormat (τ : Type) where
  repr : τ → Text
  /-- `float(s)`; `none` is `ValueError`. -/
  float : Text → Option τ
  float_repr : ∀ t, float (repr t) = some t
  ne_nil : ∀ t, repr t ≠ []
  letters : ∀ t, ∀ c ∈ repr t, c ∈ floatLetters
  length_le : ∀ t, (repr t).length ≤ fieldSizeLimit

/-- What a run command has to write: a label that an accepted run line carries, and the times
that the test daemon returned. -/
structure Row (τ : Type) where
  label : Text
  carried : ∃ line n, Parser.lineKind (rstrip line) = .command (.runCommand n label)
  times : List τ

section Algorithm

variable {τ : Type} (F : FloatFormat τ) (algorithm : Algorithm)

/-- `"{}_{}".format(self.algorithm, label)` -/
def firstField (label : Text) : Text := algorithm.name ++ "_".toList ++ label

/-- `result`, after `insert(0, …)`, as the writer turns it into texts. -/
def resultFields (row : Row τ) : List Text := firstField algorithm row.label :: row.times.map F.repr

/-- The dialect of `csv.writer(f)`. -/
def writerDialect : Dialect := ⟨',', '"'⟩

/-- The dialect of `csv.reader(f, delimiter=',', quotechar='|')`. -/
def readerDialect : Dialect := ⟨',', '|'⟩

/-- The file after the rows of a test. -/
def writeResults (rows : List (Row τ)) : Text :=
  rows.flatMap fun row => writeRow writerDialect (resultFields F algorithm row)

/-- `data_series` of `generate_plots.main`, for a file opened as text. -/
def readResults (file : Text) : Option (List (List Text)) := Csv.read readerDialect (readlines file)

/-- `label = raw.pop(0)` and `[float(i) for i in raw]`. -/
def plotRow : List Text → Option (Text × List τ)
  | [] => none
  | label :: raw => (raw.mapM F.float).map fun times => (label, times)

/-- Every row of the file is read as one row, with its label and its times. -/
def ReadsBack (rows : List (Row τ)) : Prop :=
  (readResults (writeResults F algorithm rows)).bind (·.mapM (plotRow F)) =
    some (rows.map fun row => (firstField algorithm row.label, row.times))

/-- A label that is written without quotes and that the reader takes. -/
def Clean (label : Text) : Prop :=
  (∀ c ∈ label, c ≠ ',' ∧ c ≠ '"' ∧ c ≠ '\x00') ∧
  (firstField algorithm label).length ≤ fieldSizeLimit

end Algorithm

/-! ## Lemmas: fields -/

variable {τ : Type} {F : FloatFormat τ} {algorithm : Algorithm}

/-- The label of a run command is a word. -/
theorem word_of_carried {line label : Text} {n : ℕ}
    (h : Parser.lineKind line = .command (.runCommand n label)) :
    ∀ c ∈ label, isSpace c = false := by
  obtain ⟨nop, hparams⟩ : ∃ nop, Parser.getParamsRun line = .ok (nop, label) := by
    cases Parser.taken line with
    | run n' nop label' _ params _ kind =>
      rw [kind] at h
      cases h
      exact ⟨nop, params⟩
    | rejected kind => cases kind <;> simp_all
    | _ => simp_all
  unfold Parser.getParamsRun at hparams
  split at hparams
  · next hsplit =>
    cases hparams
    exact (mem_splitWs (by rw [hsplit]; simp)).2
  · cases hparams
    decide
  · cases hparams

theorem Row.label_notNewline (row : Row τ) : ∀ c ∈ row.label, isNewline c = false := by
  obtain ⟨line, n, h⟩ := row.carried
  exact fun c hc => isNewline_of_not_isSpace (word_of_carried h c hc)

theorem name_letters (algorithm : Algorithm) : ∀ c ∈ algorithm.name ++ "_".toList,
    c ≠ ',' ∧ c ≠ '"' ∧ c ≠ '\x00' ∧ isNewline c = false := by
  cases algorithm <;> decide

theorem name_head (algorithm : Algorithm) : ∃ c s, algorithm.name = c :: s ∧ c ≠ '|' ∧ c ≠ '"' := by
  cases algorithm with
  | pso => exact ⟨'p', "so".toList, by decide, by decide, by decide⟩
  | paxos => exact ⟨'p', "axos".toList, by decide, by decide, by decide⟩
  | rethinkdb => exact ⟨'r', "ethinkdb".toList, by decide, by decide, by decide⟩
  | datastore => exact ⟨'d', "atastore".toList, by decide, by decide, by decide⟩

theorem float_letters : ∀ c ∈ floatLetters,
    c ≠ ',' ∧ c ≠ '"' ∧ c ≠ '|' ∧ c ≠ '\x00' ∧ isNewline c = false := by decide

/-- A time needs no quotes. -/
theorem repr_plain (F : FloatFormat τ) (t : τ) :
    needsQuotes writerDialect (F.repr t) = false ∧ Plain readerDialect (F.repr t) ∧
      Fits (F.repr t) := by
  have hletters : ∀ c ∈ F.repr t,
      c ≠ ',' ∧ c ≠ '"' ∧ c ≠ '|' ∧ c ≠ '\x00' ∧ isNewline c = false :=
    fun c hc => float_letters c (F.letters t c hc)
  refine ⟨?_, ⟨F.ne_nil t, fun hhead => ?_, fun c hc => ?_⟩, fun hnul => ?_, F.length_le t⟩
  · apply List.any_eq_false.mpr
    intro c hc
    obtain ⟨hcomma, hquote, -, -, hnewline⟩ := hletters c hc
    simp [writerDialect, hcomma, hquote, hnewline]
  · exact (hletters _ (List.mem_of_mem_head? hhead)).2.2.1 rfl
  · exact ⟨(hletters c hc).1, (hletters c hc).2.2.2.2⟩
  · exact (hletters _ hnul).2.2.2.1 rfl

theorem firstField_plain (algorithm : Algorithm) {label : Text} (hcomma : ',' ∉ label)
    (hnewline : ∀ c ∈ label, isNewline c = false) :
    Plain readerDialect (firstField algorithm label) := by
  obtain ⟨c, s, hname, hc, -⟩ := name_head algorithm
  refine ⟨?_, ?_, fun c hc => ?_⟩
  · unfold firstField
    rw [hname]
    exact List.cons_ne_nil _ _
  · unfold firstField
    rw [hname]
    exact fun h => hc (Option.some.inj h)
  · rcases List.mem_append.mp hc with hc | hc
    · exact ⟨(name_letters algorithm c hc).1, (name_letters algorithm c hc).2.2.2⟩
    · refine ⟨?_, hnewline c hc⟩
      rintro rfl
      exact hcomma hc

/-- The label has to be quoted for its own letters. -/
theorem needsQuotes_firstField (algorithm : Algorithm) {label : Text}
    (hnewline : ∀ c ∈ label, isNewline c = false) :
    needsQuotes writerDialect (firstField algorithm label) = true ↔ ',' ∈ label ∨ '"' ∈ label := by
  unfold needsQuotes
  rw [List.any_eq_true]
  constructor
  · rintro ⟨c, hc, hquotes⟩
    simp only [writerDialect, Bool.or_eq_true, beq_iff_eq] at hquotes
    rcases List.mem_append.mp hc with hname | hlabel
    · obtain ⟨h1, h2, -, h3⟩ := name_letters algorithm c hname
      rw [h3] at hquotes
      simp [h1, h2] at hquotes
    · rw [hnewline c hlabel] at hquotes
      rcases hquotes with (rfl | rfl) | h
      · exact .inl hlabel
      · exact .inr hlabel
      · cases h
  · rintro (h | h)
    · exact ⟨',', List.mem_append_right _ h, by decide⟩
    · exact ⟨'"', List.mem_append_right _ h, by decide⟩

theorem clean_iff (algorithm : Algorithm) {label : Text} : Clean algorithm label ↔
    (',' ∉ label ∧ '"' ∉ label) ∧ Fits (firstField algorithm label) := by
  have hname : '\x00' ∉ algorithm.name ++ "_".toList := fun h =>
    (name_letters algorithm _ h).2.2.1 rfl
  unfold Clean Fits firstField
  rw [List.mem_append, not_or]
  constructor
  · rintro ⟨hall, hlength⟩
    exact ⟨⟨fun h => (hall _ h).1 rfl, fun h => (hall _ h).2.1 rfl⟩,
      ⟨hname, fun h => (hall _ h).2.2 rfl⟩, hlength⟩
  · rintro ⟨⟨hcomma, hquote⟩, ⟨-, hnul⟩, hlength⟩
    exact ⟨fun c hc => ⟨fun h => hcomma (h ▸ hc), fun h => hquote (h ▸ hc), fun h => hnul (h ▸ hc)⟩,
      hlength⟩

/-! ## Lemmas: lines -/

/-- The line of a row, without its end. -/
def rowLine (F : FloatFormat τ) (algorithm : Algorithm) (row : Row τ) : Text :=
  [','].intercalate (writeField writerDialect (firstField algorithm row.label) ::
    row.times.map F.repr)

theorem writeRow_eq (row : Row τ) :
    writeRow writerDialect (resultFields F algorithm row) =
      rowLine F algorithm row ++ ['\r', '\n'] := by
  have hne : resultFields F algorithm row ≠ [[]] := by
    intro h
    obtain ⟨c, s, hname, -⟩ := name_head algorithm
    have := (List.cons_eq_cons.mp h).1
    unfold firstField at this
    rw [hname] at this
    cases this
  have htimes : (row.times.map F.repr).map (writeField writerDialect) = row.times.map F.repr := by
    rw [List.map_map]
    apply List.map_congr_left
    intro t _
    show writeField writerDialect (F.repr t) = F.repr t
    unfold writeField
    rw [(repr_plain F t).1]
    rfl
  unfold writeRow writeFields
  rw [if_neg hne]
  unfold resultFields rowLine
  rw [List.map_cons, htimes]
  rfl

/-- Nothing that is written for a row ends a line. -/
theorem rowLine_notNewline (row : Row τ) : ∀ c ∈ rowLine F algorithm row, isNewline c = false := by
  have hfield : ∀ c ∈ firstField algorithm row.label, isNewline c = false := fun c hc =>
    (List.mem_append.mp hc).elim (fun h => (name_letters algorithm c h).2.2.2)
      (row.label_notNewline c)
  have htimes : ∀ s ∈ row.times.map F.repr, ∀ c ∈ s, isNewline c = false := by
    intro s hs
    obtain ⟨t, -, rfl⟩ := List.mem_map.mp hs
    exact fun c hc => (float_letters c (F.letters t c hc)).2.2.2.2
  exact intercalate_letters (by decide)
    (List.forall_mem_cons.mpr ⟨writeField_letters hfield (by decide), htimes⟩)

theorem readlines_row (row : Row τ) (rest : Text) :
    readlines (writeRow writerDialect (resultFields F algorithm row) ++ rest) =
      (rowLine F algorithm row ++ ['\n']) :: readlines rest := by
  rw [writeRow_eq, List.append_assoc]
  exact readlines_newline (rowLine_notNewline row) (by decide) ('\n' :: rest)

/-- The next row of the file. -/
theorem readResults_cons (row : Row τ) (rows : List (Row τ)) :
    readResults (writeResults F algorithm (row :: rows)) = Csv.read readerDialect
      ((rowLine F algorithm row ++ ['\n']) :: readlines (writeResults F algorithm rows)) := by
  unfold readResults writeResults
  rw [List.flatMap_cons, readlines_row]

/-! ## Lemmas: one row -/

theorem mapM_float (F : FloatFormat τ) (times : List τ) :
    (times.map F.repr).mapM F.float = some times := by
  induction times with
  | nil => rfl
  | cons t times ih =>
    rw [List.map_cons, List.mapM_cons, F.float_repr, ih]
    rfl

/-- A row with a clean label is read as it was written. -/
theorem readResults_clean {row : Row τ} (hclean : Clean algorithm row.label) (rows : List (Row τ)) :
    readResults (writeResults F algorithm (row :: rows)) =
      (readResults (writeResults F algorithm rows)).map (resultFields F algorithm row :: ·) := by
  obtain ⟨⟨hcomma, hquote⟩, hfits⟩ := (clean_iff algorithm).mp hclean
  have hwrite : writeField writerDialect (firstField algorithm row.label) =
      firstField algorithm row.label := by
    unfold writeField
    rw [if_neg]
    rw [needsQuotes_firstField algorithm row.label_notNewline, not_or]
    exact ⟨hcomma, hquote⟩
  have hline : rowLine F algorithm row = [','].intercalate (resultFields F algorithm row) := by
    unfold rowLine resultFields
    rw [hwrite]
  rw [readResults_cons, hline]
  refine read_row (List.cons_ne_nil _ _) ?_ (by decide) (by decide) _
  refine List.forall_mem_cons.mpr
    ⟨⟨firstField_plain algorithm hcomma row.label_notNewline, hfits⟩, ?_⟩
  intro s hs
  obtain ⟨t, -, rfl⟩ := List.mem_map.mp hs
  exact (repr_plain F t).2

/-- A line that begins with its first field. -/
theorem exists_rowLine (F : FloatFormat τ) (algorithm : Algorithm) (row : Row τ) :
    ∃ rest, rowLine F algorithm row =
      writeField writerDialect (firstField algorithm row.label) ++ rest := by
  unfold rowLine
  cases row.times.map F.repr with
  | nil => exact ⟨[], by rw [List.intercalate_singleton, List.append_nil]⟩
  | cons s fields => exact ⟨_, by rw [List.intercalate_cons_cons, List.append_assoc]⟩

/-- Where the next row is not clean, the reader raises or the row begins with a quote. -/
theorem readResults_not_clean {row : Row τ} (hclean : ¬ Clean algorithm row.label)
    (rows : List (Row τ)) : readResults (writeResults F algorithm (row :: rows)) = none ∨
      ∃ s fields data, readResults (writeResults F algorithm (row :: rows)) =
        some ((('"' :: s) :: fields) :: data) := by
  rw [readResults_cons]
  obtain ⟨rest, hline⟩ := exists_rowLine F algorithm row
  rw [hline, List.append_assoc]
  unfold writeField
  by_cases hquotes : needsQuotes writerDialect (firstField algorithm row.label) = true
  · rw [if_pos hquotes]
    unfold quote
    have hplain : Plain readerDialect [writerDialect.quotechar] :=
      ⟨by decide, by decide, by decide⟩
    cases hread : Csv.read readerDialect _ with
    | none => exact .inl rfl
    | some data =>
      obtain ⟨s, fields, data', rfl⟩ := read_begin hplain hread
      exact .inr ⟨s, fields, data', rfl⟩
  · rw [if_neg hquotes]
    rw [needsQuotes_firstField algorithm row.label_notNewline, not_or] at hquotes
    have hfits : ¬ Fits (firstField algorithm row.label) := fun h =>
      hclean ((clean_iff algorithm).mpr ⟨hquotes, h⟩)
    exact .inl (read_none (firstField_plain algorithm hquotes.1 row.label_notNewline) hfits _ _)

/-! ## Top theorem -/

theorem readsBack_cons_iff {row : Row τ} (hclean : Clean algorithm row.label)
    (rows : List (Row τ)) : ReadsBack F algorithm (row :: rows) ↔ ReadsBack F algorithm rows := by
  have hrow : plotRow F (resultFields F algorithm row) =
      some (firstField algorithm row.label, row.times) := by
    show ((row.times.map F.repr).mapM F.float).map _ = _
    rw [mapM_float]
    rfl
  unfold ReadsBack
  rw [readResults_clean hclean, List.map_cons]
  cases readResults (writeResults F algorithm rows) with
  | none => exact iff_of_false (fun h => nomatch h) (fun h => nomatch h)
  | some data =>
    rw [Option.map_some, Option.bind_some, Option.bind_some, List.mapM_cons, hrow]
    cases data.mapM (plotRow F) with
    | none => exact iff_of_false (fun h => nomatch h) (fun h => nomatch h)
    | some plots =>
      show some (_ :: plots) = some _ ↔ _
      rw [Option.some.injEq, Option.some.injEq, List.cons_eq_cons]
      exact ⟨And.right, fun h => ⟨rfl, h⟩⟩

theorem not_readsBack_cons {row : Row τ} (hclean : ¬ Clean algorithm row.label)
    (rows : List (Row τ)) : ¬ ReadsBack F algorithm (row :: rows) := by
  unfold ReadsBack
  rcases readResults_not_clean (F := F) hclean rows with hnone | ⟨s, fields, data, hsome⟩
  · rw [hnone]
    exact fun h => nomatch h
  · rw [hsome, Option.bind_some, List.mapM_cons]
    intro h
    obtain ⟨plot, hplot, h⟩ := Option.bind_eq_some_iff.mp h
    obtain ⟨plots, -, h⟩ := Option.bind_eq_some_iff.mp h
    obtain ⟨times, -, rfl⟩ := Option.map_eq_some_iff.mp hplot
    -- the label of the plot begins with the quote, the one written with a letter
    have hlabel := congrArg Prod.fst (List.cons_eq_cons.mp (Option.some.inj h)).1
    obtain ⟨c, name, hname, -, hc⟩ := name_head algorithm
    unfold firstField at hlabel
    rw [hname] at hlabel
    exact hc (List.cons_eq_cons.mp hlabel).1.symm

/-- **The rows of a file are read back** exactly if every label is clean. -/
theorem reads_back_iff (F : FloatFormat τ) (algorithm : Algorithm) (rows : List (Row τ)) :
    ReadsBack F algorithm rows ↔ ∀ row ∈ rows, Clean algorithm row.label := by
  induction rows with
  | nil => exact iff_of_true rfl fun row hrow => nomatch hrow
  | cons row rows ih =>
    rw [List.forall_mem_cons]
    by_cases hclean : Clean algorithm row.label
    · rw [readsBack_cons_iff hclean, ih]
      exact ⟨fun h => ⟨hclean, h⟩, And.right⟩
    · exact iff_of_false (not_readsBack_cons hclean rows) fun h => hclean h.1

/-- Whole seconds below ten, with the texts of their floats. -/
def secondsFormat : FloatFormat (Fin 10) where
  repr t := natText t ++ ".0".toList
  float s := (List.finRange 10).find? fun t => natText t ++ ".0".toList = s
  float_repr := by decide
  ne_nil := by decide
  letters := by decide
  length_le := by decide

/-- "run 1 a,b" on a cluster of pso. -/
def commaRow : Row (Fin 10) where
  label := "a,b".toList
  carried := ⟨"run 1 a,b".toList, 1, by decide +kernel⟩
  times := [3]

/-- The label is read as two fields, and the second one is no time. -/
theorem not_reads_back : readResults (writeResults secondsFormat .pso [commaRow]) =
    some [["\"pso_a".toList, "b\"".toList, "3.0".toList]] ∧
    ¬ ReadsBack secondsFormat .pso [commaRow] := by
  refine ⟨by decide +kernel, ?_⟩
  exact not_readsBack_cons (fun h => (h.1 ',' (by decide)).1 rfl) []

end Plots

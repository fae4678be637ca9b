import Krafters.Lib.Text

/-!
# Csv: the writer and the reader of Python 3's csv module

A dialect is its delimiter and its quote character; the rest is as by default: fields are
quoted where they have to be, a quote inside is doubled, lines end with "\r\n", and the reader
is not strict.  The reader is the state machine of the module, which takes the letters of a line
one by one; a record ends with its line unless a quoted field is open.

* `read_row`: unquoted fields are read as they were written;
* `processLine_field`: an unquoted field has to fit, else the reader raises;
* `read_begin`: whatever follows, the first field begins with the first letter of its line.
-/

namespace Csv

open Py

structure Dialect where
  delimiter : Char
  quotechar : Char

/-- `csv.field_size_limit()` -/
def fieldSizeLimit : ℕ := 131072

/-! ## Writer -/

section Writer

variable (d : Dialect)

def needsQuotes (s : Text) : Bool :=
  s.any fun c => c == d.delimiter || c == d.quotechar || isNewline c

def quote (s : Text) : Text :=
  d.quotechar :: (s.flatMap (fun c => if c = d.quotechar then [c, c] else [c]) ++ [d.quotechar])

def writeField (s : Text) : Text := if needsQuotes d s then quote d s else s

/-- The fields of a line; an empty one is quoted where it is alone. -/
def writeFields (row : List Text) : Text :=
  if row = [[]] then quote d [] else [d.delimiter].intercalate (row.map (writeField d))

/-- `writerow(row)` -/
def writeRow (row : List Text) : Text := writeFields d row ++ ['\r', '\n']

end Writer

/-! ## Reader -/

inductive ReaderState
  | startRecord
  | startField
  | inField
  | inQuotedField
  | quoteInQuotedField
  | eatCrnl
deriving DecidableEq, Repr

structure Reader where
  state : ReaderState := .startRecord
  field : Text := []
  fields : List Text := []
deriving DecidableEq, Repr

namespace Reader

variable (r : Reader)

/-- `parse_save_field`, and the state after it. -/
def saveField (state : ReaderState) : Reader :=
  { state, field := [], fields := r.fields ++ [r.field] }

/-- `parse_add_char`: `none` is "field larger than field limit". -/
def addChar (c : Char) (state : ReaderState) : Option Reader :=
  if r.field.length < fieldSizeLimit then some { r with state, field := r.field ++ [c] } else none

end Reader

section Reader

variable (d : Dialect)

def processStart (c : Char) (r : Reader) : Option Reader :=
  if isNewline c then some (r.saveField .eatCrnl)
  else if c = d.quotechar then some { r with state := .inQuotedField }
  else if c = d.delimiter then some (r.saveField .startField)
  else r.addChar c .inField

/-- `parse_process_char`; `none` is an exception. -/
def processChar (c : Char) (r : Reader) : Option Reader :=
  match r.state with
  | .startRecord => if isNewline c then some { r with state := .eatCrnl } else processStart d c r
  | .startField => processStart d c r
  | .inField =>
    if isNewline c then some (r.saveField .eatCrnl)
    else if c = d.delimiter then some (r.saveField .startField)
    else r.addChar c .inField
  | .inQuotedField =>
    if c = d.quotechar then some { r with state := .quoteInQuotedField }
    else r.addChar c .inQuotedField
  | .quoteInQuotedField =>
    if c = d.quotechar then r.addChar c .inQuotedField
    else if c = d.delimiter then some (r.saveField .startField)
    else if isNewline c then some (r.saveField .eatCrnl)
    else r.addChar c .inField
  | .eatCrnl => if isNewline c then some r else none

/-- The same, for the end of a line. -/
def endLine (r : Reader) : Reader :=
  match r.state with
  | .startField | .inField | .quoteInQuotedField => r.saveField .startRecord
  | .eatCrnl => { r with state := .startRecord }
  | .startRecord | .inQuotedField => r

/-- A line; "line contains NULL byte" is an exception too. -/
def processLine : Text → Reader → Option Reader
  | [], r => some (endLine r)
  | c :: line, r => if c = '\x00' then none else (processChar d c r).bind (processLine line)

/-- The records of the lines that are left. -/
def readFrom : List Text → Reader → Option (List (List Text))
  | [], r => some (if r.field ≠ [] ∨ r.state = .inQuotedField then [r.fields ++ [r.field]] else [])
  | line :: lines, r =>
    (processLine d line r).bind fun r =>
      if r.state = .startRecord then (readFrom lines {}).map (r.fields :: ·) else readFrom lines r

/-- `list(csv.reader(lines))` -/
def read (lines : List Text) : Option (List (List Text)) := readFrom d lines {}

end Reader

/-! ## Lemmas: letters of a line -/

variable {d : Dialect}

theorem writeField_letters {p : Char → Prop} {s : Text} (hs : ∀ c ∈ s, p c)
    (hquote : p d.quotechar) : ∀ c ∈ writeField d s, p c := by
  intro c hc
  unfold writeField quote at hc
  split at hc
  · rcases List.mem_cons.mp hc with rfl | hc
    · exact hquote
    rcases List.mem_append.mp hc with hc | hc
    · obtain ⟨c', hc', hmem⟩ := List.mem_flatMap.mp hc
      have hcc : c = c' := by
        split at hmem
        · simpa using hmem
        · exact List.mem_singleton.mp hmem
      exact hcc ▸ hs c' hc'
    · obtain rfl := List.mem_singleton.mp hc
      exact hquote
  · exact hs c hc

theorem intercalate_letters {p : Char → Prop} {sep : Text} (hsep : ∀ c ∈ sep, p c) {l : List Text}
    (hl : ∀ s ∈ l, ∀ c ∈ s, p c) : ∀ c ∈ sep.intercalate l, p c := by
  induction l with
  | nil => exact fun c hc => nomatch hc
  | cons s l ih =>
    have hs := hl s List.mem_cons_self
    cases l with
    | nil =>
      rw [List.intercalate_singleton]
      exact hs
    | cons s' l =>
      rw [List.intercalate_cons_cons]
      intro c hc
      rcases List.mem_append.mp hc with hc | hc
      · rcases List.mem_append.mp hc with hc | hc
        · exact hs c hc
        · exact hsep c hc
      · exact ih (fun t ht => hl t (List.mem_cons_of_mem s ht)) c hc

/-! ## Lemmas: unquoted fields -/

/-- A field that the reader takes letter by letter, up to the delimiter behind it. -/
structure Plain (d : Dialect) (s : Text) : Prop where
  ne_nil : s ≠ []
  head : s.head? ≠ some d.quotechar
  letters : ∀ c ∈ s, c ≠ d.delimiter ∧ isNewline c = false

/-- The reader does not raise on the field. -/
def Fits (s : Text) : Prop := '\x00' ∉ s ∧ s.length ≤ fieldSizeLimit

theorem processLine_inField {s : Text} (hs : ∀ c ∈ s, c ≠ d.delimiter ∧ isNewline c = false)
    (rest : Text) (fields : List Text) {field : Text} (hfield : Fits field) :
    (Fits (field ++ s) → processLine d (s ++ rest) ⟨.inField, field, fields⟩ =
      processLine d rest ⟨.inField, field ++ s, fields⟩) ∧
    (¬ Fits (field ++ s) → processLine d (s ++ rest) ⟨.inField, field, fields⟩ = none) := by
  induction s generalizing field with
  | nil =>
    rw [List.append_nil]
    exact ⟨fun _ => rfl, fun h => absurd hfield h⟩
  | cons c s ih =>
    obtain ⟨hdelimiter, hnewline⟩ := hs c List.mem_cons_self
    have happend : field ++ c :: s = (field ++ [c]) ++ s := by
      rw [List.append_assoc, List.singleton_append]
    have hgo : processLine d (c :: s ++ rest) ⟨.inField, field, fields⟩ =
        if c = '\x00' then none else if field.length < fieldSizeLimit then
          processLine d (s ++ rest) ⟨.inField, field ++ [c], fields⟩ else none := by
      simp only [List.cons_append, processLine, processChar, hnewline, hdelimiter,
        Bool.false_eq_true, if_false, Reader.addChar]
      split
      · rfl
      · split <;> rfl
    rw [hgo, happend]
    by_cases hc : Fits (field ++ [c])
    · obtain ⟨hnul, hlength⟩ := hc
      rw [List.mem_append, not_or, List.mem_singleton] at hnul
      rw [List.length_append, List.length_singleton] at hlength
      rw [if_neg (Ne.symm hnul.2), if_pos (by omega)]
      refine ih (fun c' hc' => hs c' (List.mem_cons_of_mem c hc')) ⟨?_, ?_⟩
      · rw [List.mem_append, not_or, List.mem_singleton]
        exact hnul
      · rw [List.length_append, List.length_singleton]
        exact hlength
    · have hnot : ¬ Fits (field ++ [c] ++ s) := fun h => hc
        ⟨fun hmem => h.1 (List.mem_append_left _ hmem), by
          have := h.2
          rw [List.length_append] at this
          omega⟩
      refine ⟨fun h => absurd h hnot, fun _ => ?_⟩
      split
      · rfl
      · next hnul =>
        split
        · next hlength =>
          refine absurd ⟨?_, ?_⟩ hc
          · rw [List.mem_append, not_or, List.mem_singleton]
            exact ⟨hfield.1, Ne.symm hnul⟩
          · rw [List.length_append, List.length_singleton]
            omega
        · rfl

/-- **An unquoted field** is read up to its end if it fits, and else the reader raises. -/
theorem processLine_field {s : Text} (hs : Plain d s) (rest : Text) {state : ReaderState}
    (hstate : state = .startRecord ∨ state = .startField) (fields : List Text) :
    (Fits s → processLine d (s ++ rest) ⟨state, [], fields⟩ =
      processLine d rest ⟨.inField, s, fields⟩) ∧
    (¬ Fits s → processLine d (s ++ rest) ⟨state, [], fields⟩ = none) := by
  obtain ⟨hne, hhead, hletters⟩ := hs
  obtain ⟨c, s, rfl⟩ := List.exists_cons_of_ne_nil hne
  obtain ⟨hdelimiter, hnewline⟩ := hletters c List.mem_cons_self
  have hquote : c ≠ d.quotechar := fun h => hhead (congrArg some h)
  have hlimit : (0 : ℕ) < fieldSizeLimit := by decide
  have hstart : processChar d c ⟨state, [], fields⟩ = some ⟨.inField, [c], fields⟩ := by
    rcases hstate with rfl | rfl
    all_goals
      simp only [processChar, processStart, hnewline, hquote, hdelimiter, Bool.false_eq_true,
        if_false, Reader.addChar, List.length_nil, hlimit, if_true, List.nil_append]
  by_cases hc : c = '\x00'
  · have hnot : ¬ Fits (c :: s) := fun h => h.1 (hc ▸ List.mem_cons_self)
    refine ⟨fun h => absurd h hnot, fun _ => ?_⟩
    simp only [List.cons_append, processLine, hc, if_true]
  · have hgo : processLine d (c :: s ++ rest) ⟨state, [], fields⟩ =
        processLine d (s ++ rest) ⟨.inField, [c], fields⟩ := by
      simp only [List.cons_append, processLine, hc, if_false, hstart, Option.bind_some]
    have hfits : Fits [c] := ⟨by rw [List.mem_singleton]; exact Ne.symm hc, hlimit⟩
    have hrest : ∀ c' ∈ s, c' ≠ d.delimiter ∧ isNewline c' = false :=
      fun c' hc' => hletters c' (List.mem_cons_of_mem c hc')
    rw [hgo]
    exact processLine_inField hrest rest fields hfits

theorem processLine_row {row : List Text} (hne : row ≠ []) (hrow : ∀ s ∈ row, Plain d s ∧ Fits s)
    {state : ReaderState} (hstate : state = .startRecord ∨ state = .startField)
    (fields : List Text) (hd : isNewline d.delimiter = false) (hnul : d.delimiter ≠ '\x00') :
    processLine d ([d.delimiter].intercalate row ++ ['\n']) ⟨state, [], fields⟩ =
      some ⟨.startRecord, [], fields ++ row⟩ := by
  induction row generalizing state fields with
  | nil => exact absurd rfl hne
  | cons s row ih =>
    obtain ⟨hplain, hfits⟩ := hrow s List.mem_cons_self
    cases row with
    | nil =>
      rw [List.intercalate_singleton, (processLine_field hplain ['\n'] hstate fields).1 hfits]
      rfl
    | cons s' row =>
      have hline : [d.delimiter].intercalate (s :: s' :: row) ++ ['\n'] =
          s ++ (d.delimiter :: ([d.delimiter].intercalate (s' :: row) ++ ['\n'])) := by
        rw [List.intercalate_cons_cons]
        simp only [List.append_assoc, List.cons_append, List.nil_append]
      have hchar : processChar d d.delimiter ⟨.inField, s, fields⟩ =
          some ⟨.startField, [], fields ++ [s]⟩ := by
        simp only [processChar, hd, Bool.false_eq_true, if_false, if_true, Reader.saveField]
      rw [hline, (processLine_field hplain _ hstate fields).1 hfits]
      simp only [processLine, hnul, if_false, hchar, Option.bind_some]
      rw [ih (List.cons_ne_nil _ _) (fun t ht => hrow t (List.mem_cons_of_mem s ht)) (.inr rfl),
        List.append_assoc, List.singleton_append]

/-- **A line of unquoted fields** is read as the row of these fields. -/
theorem read_row {row : List Text} (hne : row ≠ []) (hrow : ∀ s ∈ row, Plain d s ∧ Fits s)
    (hd : isNewline d.delimiter = false) (hnul : d.delimiter ≠ '\x00') (lines : List Text) :
    read d (([d.delimiter].intercalate row ++ ['\n']) :: lines) =
      (read d lines).map (row :: ·) := by
  unfold read
  rw [readFrom, processLine_row hne hrow (.inl rfl) [] hd hnul]
  rfl

/-- A field that does not fit at the start of a line. -/
theorem read_none {s : Text} (hs : Plain d s) (hfits : ¬ Fits s) (rest : Text) (lines : List Text) :
    read d ((s ++ rest) :: lines) = none := by
  unfold read
  rw [readFrom, (processLine_field hs rest (.inl rfl) []).2 hfits]
  rfl

/-! ## Lemmas: how a row begins -/

/-- What was saved stays. -/
theorem addChar_fields {r r' : Reader} {c : Char} {state : ReaderState}
    (h : r.addChar c state = some r') : r'.fields = r.fields := by
  unfold Reader.addChar at h
  split at h
  · cases h
    rfl
  · cases h

theorem processStart_fields {r r' : Reader} {c : Char} (h : processStart d c r = some r') :
    r.fields <+: r'.fields := by
  unfold processStart at h
  split_ifs at h
  · cases h
    exact List.prefix_append _ _
  · cases h
    exact List.prefix_rfl
  · cases h
    exact List.prefix_append _ _
  · rw [addChar_fields h]

theorem processChar_fields {r r' : Reader} {c : Char} (h : processChar d c r = some r') :
    r.fields <+: r'.fields := by
  unfold processChar at h
  split at h
  · split_ifs at h
    · cases h
      exact List.prefix_rfl
    · exact processStart_fields h
  · exact processStart_fields h
  all_goals
    split_ifs at h
    all_goals first
      | rw [addChar_fields h]
      | cases h; first | exact List.prefix_append _ _ | exact List.prefix_rfl

theorem endLine_fields (r : Reader) : r.fields <+: (endLine r).fields := by
  unfold endLine
  split
  all_goals first | exact List.prefix_append _ _ | exact List.prefix_rfl

theorem processLine_fields {line : Text} {r r' : Reader} (h : processLine d line r = some r') :
    r.fields <+: r'.fields := by
  induction line generalizing r with
  | nil =>
    cases h
    exact endLine_fields r
  | cons c line ih =>
    rw [processLine] at h
    split at h
    · cases h
    · obtain ⟨r₁, h₁, h₂⟩ := Option.bind_eq_some_iff.mp h
      exact (processChar_fields h₁).trans (ih h₂)

/-- A record is open after its line only inside a quoted field. -/
theorem processLine_state {line : Text} {r r' : Reader} (h : processLine d line r = some r') :
    r'.state = .startRecord ∨ r'.state = .inQuotedField := by
  induction line generalizing r with
  | nil =>
    cases h
    unfold endLine
    split
    · exact .inl rfl
    · exact .inl rfl
    · exact .inl rfl
    · exact .inl rfl
    · next hstate => exact .inl hstate
    · next hstate => exact .inr hstate
  | cons c line ih =>
    rw [processLine] at h
    split at h
    · cases h
    · obtain ⟨r₁, -, h₂⟩ := Option.bind_eq_some_iff.mp h
      exact ih h₂

/-- The fields that an open record has are the first ones of its row. -/
theorem readFrom_fields {lines : List Text} {r : Reader} {data : List (List Text)}
    (hstate : r.state = .inQuotedField) (h : readFrom d lines r = some data) :
    ∃ row data', data = row :: data' ∧ r.fields <+: row := by
  induction lines generalizing r with
  | nil =>
    rw [readFrom, if_pos (.inr hstate)] at h
    cases h
    exact ⟨_, _, rfl, List.prefix_append _ _⟩
  | cons line lines ih =>
    rw [readFrom] at h
    obtain ⟨r₁, h₁, h₂⟩ := Option.bind_eq_some_iff.mp h
    have hprefix := processLine_fields h₁
    rcases processLine_state h₁ with hstart | hquoted
    · rw [if_pos hstart] at h₂
      obtain ⟨data', -, rfl⟩ := Option.map_eq_some_iff.mp h₂
      exact ⟨r₁.fields, data', rfl, hprefix⟩
    · rw [if_neg (by rw [hquoted]; decide)] at h₂
      obtain ⟨row, data', rfl, hrow⟩ := ih hquoted h₂
      exact ⟨row, data', rfl, hprefix.trans hrow⟩

/-- The first field, once it is begun, is saved by the end of the line. -/
theorem processLine_begin {line : Text} {x : Char} {s : Text} {r : Reader}
    (h : processLine d line ⟨.inField, x :: s, []⟩ = some r) : ∃ s', [x :: s'] <+: r.fields := by
  induction line generalizing s with
  | nil =>
    cases h
    exact ⟨s, List.prefix_rfl⟩
  | cons c line ih =>
    rw [processLine] at h
    split at h
    · cases h
    · obtain ⟨r₁, h₁, h₂⟩ := Option.bind_eq_some_iff.mp h
      simp only [processChar, Reader.addChar] at h₁
      split_ifs at h₁
      · cases h₁
        exact ⟨s, processLine_fields h₂⟩
      · cases h₁
        exact ⟨s, processLine_fields h₂⟩
      · cases h₁
        exact ih h₂

/-- **The first field begins with the first letter of its line**, if that is an ordinary one. -/
theorem read_begin {x : Char} (hx : Plain d [x]) {line : Text} {lines : List Text}
    {data : List (List Text)} (h : read d ((x :: line) :: lines) = some data) :
    ∃ s row data', data = ((x :: s) :: row) :: data' := by
  unfold read at h
  rw [readFrom] at h
  obtain ⟨r, h₁, h₂⟩ := Option.bind_eq_some_iff.mp h
  obtain ⟨s, hs⟩ : ∃ s, [x :: s] <+: r.fields := by
    by_cases hfits : Fits [x]
    · have hgo : processLine d (x :: line) {} = processLine d line ⟨.inField, [x], []⟩ :=
        (processLine_field hx line (.inl rfl) []).1 hfits
      rw [hgo] at h₁
      exact processLine_begin h₁
    · have hgo : processLine d (x :: line) {} = none :=
        (processLine_field hx line (.inl rfl) []).2 hfits
      rw [hgo] at h₁
      cases h₁
  have hrow : ∀ row : List Text, r.fields <+: row → ∃ row', row = (x :: s) :: row' := by
    intro row hprefix
    obtain ⟨row', hrow'⟩ := hs.trans hprefix
    exact ⟨row', hrow'.symm⟩
  rcases processLine_state h₁ with hstart | hquoted
  · rw [if_pos hstart] at h₂
    obtain ⟨data', -, rfl⟩ := Option.map_eq_some_iff.mp h₂
    obtain ⟨row', hrow'⟩ := hrow r.fields List.prefix_rfl
    exact ⟨s, row', data', by rw [hrow']⟩
  · rw [if_neg (by rw [hquoted]; decide)] at h₂
    obtain ⟨row, data', rfl, hprefix⟩ := readFrom_fields hquoted h₂
    obtain ⟨row', rfl⟩ := hrow row hprefix
    exact ⟨s, row', data', rfl⟩

end Csv

import ApiReference.Settings.Reader
import Mathlib.Data.List.Basic
import Mathlib.Data.List.TakeWhile

namespace ApiReference.SettingsText

/-! Settings texts that are written line by line, and what is read from them. -/

/-- The characters that stand for themselves between double quotes. -/
def isPlain (c : Char) : Bool := isPrintable c && c ≠ '"' && c ≠ '\\'

inductive Line where
  | empty
  | comment (text : List Char)
  | entry (key value : List Char)

namespace Line

def write : Line → List Char
  | .empty => ['\n']
  | .comment text => '#' :: text ++ ['\n']
  | .entry key value => key ++ [' ', '=', ' ', '"'] ++ value ++ ['"', '\n']

def entry? : Line → Option (String × String)
  | .entry key value => some (String.ofList key, String.ofList value)
  | _ => none

/-- A key is bare and a value is quoted as it is. -/
def isProper : Line → Bool
  | .empty => true
  | .comment text => text.all isPrintable
  | .entry key value => !key.isEmpty && key.all isBareKey && value.all isPlain

end Line

theorem lineEnd?_comment {text : List Char} (printable : text.all isPrintable = true) (rest : List Char) :
    lineEnd? ('#' :: text ++ '\n' :: rest) = some rest := by
  have stops : (text ++ '\n' :: rest).dropWhile isPrintable = '\n' :: rest := by
    rw [List.dropWhile_append_of_pos (List.all_eq_true.mp printable), List.dropWhile_cons_of_neg (by decide)]
  have skipped : skipSpace ('#' :: (text ++ '\n' :: rest)) = '#' :: (text ++ '\n' :: rest) :=
    List.dropWhile_cons_of_neg (by decide)
  simp only [List.cons_append, lineEnd?, skipped, stops]

/-- What starts with a bare key is no line without an entry. -/
theorem isBareKey_cases {c : Char} (bare : isBareKey c = true) :
    isSpace c = false ∧ c ≠ '#' ∧ c ≠ '\n' ∧ c ≠ '\r' ∧ c ≠ '"' ∧ c ≠ '\'' := by
  have other : ∀ d, isBareKey d = false → c ≠ d := by
    rintro d unfit rfl
    rw [bare] at unfit
    cases unfit
  have space := other ' ' (by decide)
  have tab := other '\t' (by decide)
  refine ⟨by simp [isSpace, space, tab], ?_, ?_, ?_, ?_, ?_⟩ <;> exact other _ (by decide)

theorem lineEnd?_bare {c : Char} (bare : isBareKey c = true) (rest : List Char) : lineEnd? (c :: rest) = none := by
  obtain ⟨noSpace, noComment, noFeed, noReturn, _⟩ := isBareKey_cases bare
  have skipped : skipSpace (c :: rest) = c :: rest := List.dropWhile_cons_of_neg (by simp [noSpace])
  unfold lineEnd?
  rw [skipped]
  simp [noComment, noFeed, noReturn]

theorem key?_bare {key : List Char} (nonempty : key ≠ []) (bare : key.all isBareKey = true) {stop : Char}
    (stops : isBareKey stop = false) (rest : List Char) :
    key? (key ++ stop :: rest) = some (key, stop :: rest) := by
  have taken : (key ++ stop :: rest).takeWhile isBareKey = key := by
    rw [List.takeWhile_append_of_pos (List.all_eq_true.mp bare), List.takeWhile_cons_of_neg (by simp [stops]),
      List.append_nil]
  have dropped : (key ++ stop :: rest).dropWhile isBareKey = stop :: rest := by
    rw [List.dropWhile_append_of_pos (List.all_eq_true.mp bare), List.dropWhile_cons_of_neg (by simp [stops])]
  obtain ⟨c, more, rfl⟩ := List.exists_cons_of_ne_nil nonempty
  obtain ⟨_, _, _, _, noQuote, noApostrophe⟩ := isBareKey_cases (List.all_eq_true.mp bare c (by simp))
  rw [List.cons_append] at taken dropped ⊢
  unfold key?
  split
  · simp_all
  · simp_all
  · simp [taken, dropped]

theorem quoted?_plain {text : List Char} (plain : text.all isPlain = true) (rest : List Char) :
    quoted? (text ++ '"' :: rest) = some (text, rest) := by
  induction text with
  | nil => rfl
  | cons c more ih =>
      simp only [List.all_cons, isPlain, Bool.and_eq_true, decide_eq_true_eq] at plain
      obtain ⟨⟨⟨printable, noQuote⟩, noEscape⟩, others⟩ := plain
      have inner := ih (by simpa [isPlain] using others)
      rw [List.cons_append, quoted?]
      · simp [printable, noEscape, inner, Parsed.after]
      all_goals simp_all

theorem value?_plain {text : List Char} (plain : text.all isPlain = true) (rest : List Char) :
    value? ('"' :: text ++ '"' :: '\n' :: rest) = some (text, '\n' :: rest) := by
  have quoted := quoted?_plain plain ('\n' :: rest)
  cases text with
  | nil => exact quoted
  | cons c more =>
      have noQuote : c ≠ '"' := by
        rintro rfl
        simp [isPlain] at plain
      rw [List.cons_append, value?]
      · exact quoted
      all_goals simp_all

/-- An entry is read when its value is, whatever that is. -/
theorem assignments?_entry {key : List Char} (nonempty : key ≠ []) (bare : key.all isBareKey = true) (lines : Nat)
    (rest : List Char) :
    assignments? (lines + 1) (key ++ ' ' :: '=' :: ' ' :: '"' :: rest) =
      (value? ('"' :: rest)).bind fun (value, rest) => (lineEnd? rest).bind fun rest =>
        (assignments? lines rest).map ((String.ofList key, String.ofList value) :: ·) := by
  have keyed := key?_bare nonempty bare (by decide : isBareKey ' ' = false) ('=' :: ' ' :: '"' :: rest)
  obtain ⟨c, more, rfl⟩ := List.exists_cons_of_ne_nil nonempty
  have bareHead := List.all_eq_true.mp bare c (by simp)
  have skipped : skipSpace (c :: (more ++ ' ' :: '=' :: ' ' :: '"' :: rest)) =
      c :: (more ++ ' ' :: '=' :: ' ' :: '"' :: rest) :=
    List.dropWhile_cons_of_neg (by simp [(isBareKey_cases bareHead).1])
  rw [List.cons_append] at keyed ⊢
  rw [assignments?, lineEnd?_bare bareHead]
  · simp only [skipped, assignment?, keyed]
    have before : skipSpace (' ' :: '=' :: ' ' :: '"' :: rest) = '=' :: ' ' :: '"' :: rest := rfl
    have after : skipSpace (' ' :: '"' :: rest) = '"' :: rest := rfl
    simp only [Option.bind_eq_bind, Option.bind_some, before, after, Option.pure_def, Option.bind_assoc,
      Option.map_eq_bind]
    rfl
  · exact List.cons_ne_nil _ _

theorem assignments?_of_lineEnd? {cs rest : List Char} (nonempty : cs ≠ []) (ended : lineEnd? cs = some rest)
    (lines : Nat) : assignments? (lines + 1) cs = assignments? lines rest := by
  rw [assignments?, ended]
  exact nonempty

theorem assignments?_write {line : Line} (proper : line.isProper = true) (lines : Nat) (rest : List Char) :
    assignments? (lines + 1) (line.write ++ rest) = (assignments? lines rest).map (line.entry?.toList ++ ·) := by
  cases line with
  | empty =>
      have ended : lineEnd? ('\n' :: rest) = some rest := rfl
      simpa [Line.write, Line.entry?] using assignments?_of_lineEnd? (List.cons_ne_nil _ _) ended lines
  | comment text =>
      have ended := lineEnd?_comment proper rest
      simpa [Line.write, Line.entry?] using assignments?_of_lineEnd? (List.cons_ne_nil _ _) ended lines
  | entry key value =>
      simp only [Line.isProper, Bool.and_eq_true, Bool.not_eq_true', List.isEmpty_eq_false_iff] at proper
      obtain ⟨⟨nonempty, bare⟩, plain⟩ := proper
      have ended : lineEnd? ('\n' :: rest) = some rest := rfl
      have read := assignments?_entry nonempty bare lines (value ++ '"' :: '\n' :: rest)
      rw [← List.cons_append, value?_plain plain] at read
      simpa [Line.write, Line.entry?, ended] using read

/-- Lines are read as they were written, whatever follows them. -/
theorem assignments?_flatMap_write {written : List Line} (proper : written.all Line.isProper = true) (lines : Nat)
    (rest : List Char) :
    assignments? (lines + written.length) (written.flatMap Line.write ++ rest) =
      (assignments? lines rest).map (written.filterMap Line.entry? ++ ·) := by
  induction written with
  | nil => simp
  | cons line more ih =>
      rw [List.all_cons, Bool.and_eq_true] at proper
      rw [List.flatMap_cons, List.append_assoc, List.length_cons, ← Nat.add_assoc, assignments?_write proper.1,
        ih proper.2]
      cases assignments? lines rest <;> cases line <;> rfl

theorem Line.write_ne_nil (line : Line) : line.write ≠ [] := by
  cases line <;> simp [write]

theorem length_le_flatMap_write (written : List Line) : written.length ≤ (written.flatMap Line.write).length := by
  induction written with
  | nil => exact Nat.le_refl _
  | cons line more ih =>
      have positive := List.length_pos_iff.mpr line.write_ne_nil
      rw [List.flatMap_cons, List.length_append, List.length_cons]
      omega

theorem assignments?_lines {written : List Line} (proper : written.all Line.isProper = true) :
    assignments? ((written.flatMap Line.write).length + 1) (written.flatMap Line.write) =
      some (written.filterMap Line.entry?) := by
  obtain ⟨spare, enough⟩ := Nat.exists_eq_add_of_le' (Nat.le_succ_of_le (length_le_flatMap_write written))
  have read := assignments?_flatMap_write proper spare []
  rw [← enough, List.append_nil, assignments?] at read
  simpa using read

/-- What follows lines is read when they are. -/
theorem exists_of_assignments?_write {written : List Line} (proper : written.all Line.isProper = true) {lines : Nat}
    {rest : List Char} {entries : List (String × String)}
    (read : assignments? lines (written.flatMap Line.write ++ rest) = some entries) :
    ∃ fewer later, assignments? fewer rest = some later ∧ later <:+ entries := by
  induction written generalizing lines entries with
  | nil => exact ⟨lines, entries, read, List.suffix_rfl⟩
  | cons line more ih =>
      rw [List.all_cons, Bool.and_eq_true] at proper
      rw [List.flatMap_cons, List.append_assoc] at read
      cases lines with
      | zero =>
          obtain ⟨c, others, written⟩ := List.exists_cons_of_ne_nil line.write_ne_nil
          rw [written] at read
          cases read
      | succ lines =>
          rw [assignments?_write proper.1] at read
          obtain ⟨others, inner, rfl⟩ := Option.map_eq_some_iff.mp read
          obtain ⟨fewer, later, last, ends⟩ := ih proper.2 inner
          exact ⟨fewer, later, last, ends.trans (List.suffix_append _ _)⟩

end ApiReference.SettingsText

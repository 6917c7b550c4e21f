import ApiReference.Listing.Span

namespace ApiReference

/-! How a terminal reads a text: characters to show, and control sequences in between. A sequence
starts with the escape character, which no other part of it is, so that a text can be cut before
each of them. -/

namespace Terminal

def escape : Char := '\u001b'

/-- An escape, a bracket, digits and the letter of a sequence that changes how text is shown. -/
def sequenceOf (code : List Char) : List Char := escape :: '[' :: code ++ ['m']

structure IsCode (code : List Char) : Prop where
  nonempty : code ≠ []
  digits : ∀ c ∈ code, c.isDigit = true

/-- The digits of the sequence that a text starts with. -/
def codeAt? : List Char → Option (List Char)
  | first :: '[' :: rest =>
      if first = escape ∧ rest.takeWhile Char.isDigit ≠ [] ∧ (rest.dropWhile Char.isDigit).head? = some 'm' then
        some (rest.takeWhile Char.isDigit)
      else none
  | _ => none

inductive Signal where
  | char (c : Char)
  | control (code : List Char)
deriving DecidableEq

def Signal.text : Signal → List Char
  | .char c => [c]
  | .control code => sequenceOf code

def Signal.char? : Signal → Option Char
  | .char c => some c
  | .control _ => none

/-- Reads a text from left to right; `skip` characters still belong to the sequence last read. -/
def readFrom : Nat → List Char → List Signal
  | _, [] => []
  | skip + 1, _ :: rest => readFrom skip rest
  | 0, c :: rest =>
      match codeAt? (c :: rest) with
      | some code => .control code :: readFrom (code.length + 2) rest
      | none => .char c :: readFrom 0 rest

/-- A text without its control sequences. -/
def withoutControls (cs : List Char) : List Char := (readFrom 0 cs).filterMap Signal.char?

theorem codeAt?_of_ne {c : Char} (other : c ≠ escape) (rest : List Char) : codeAt? (c :: rest) = none := by
  unfold codeAt?
  split
  · rename_i first rest same
    obtain ⟨rfl, _⟩ := List.cons.inj same
    exact if_neg fun found => other found.1
  · rfl

theorem codeAt?_sequenceOf {code : List Char} (isCode : IsCode code) (rest : List Char) :
    codeAt? (sequenceOf code ++ rest) = some code := by
  have stop : ¬ Char.isDigit 'm' = true := by decide
  have taken : (code ++ 'm' :: rest).takeWhile Char.isDigit = code := by
    rw [List.takeWhile_append_of_pos isCode.digits, List.takeWhile_cons_of_neg stop, List.append_nil]
  have dropped : (code ++ 'm' :: rest).dropWhile Char.isDigit = 'm' :: rest := by
    rw [List.dropWhile_append_of_pos isCode.digits, List.dropWhile_cons_of_neg stop]
  simp [sequenceOf, codeAt?, taken, dropped, isCode.nonempty]

theorem eq_of_codeAt?_eq_some {cs code : List Char} (found : codeAt? cs = some code) :
    ∃ rest, cs = sequenceOf code ++ rest := by
  unfold codeAt? at found
  split at found
  · rename_i first rest
    split at found
    · rename_i sequence
      obtain ⟨rfl, _, marked⟩ := sequence
      obtain ⟨after, ended⟩ := List.head?_eq_some_iff.mp marked
      obtain rfl := Option.some.inj found
      refine ⟨after, ?_⟩
      have whole := List.takeWhile_append_dropWhile (p := Char.isDigit) (l := rest)
      rw [ended] at whole
      simp [sequenceOf, whole]
    · cases found
  · cases found

theorem readFrom_eq_drop (skip : Nat) (cs : List Char) : readFrom skip cs = readFrom 0 (cs.drop skip) := by
  induction cs generalizing skip with
  | nil => cases skip <;> rfl
  | cons c rest ih =>
      cases skip with
      | zero => rfl
      | succ skip => rw [readFrom, ih, List.drop_succ_cons]

/-- Nothing of a text gets lost when it is read. -/
theorem flatMap_text_readFrom (skip : Nat) (cs : List Char) : (readFrom skip cs).flatMap Signal.text = cs.drop skip := by
  induction cs generalizing skip with
  | nil => cases skip <;> rfl
  | cons c rest ih =>
      cases skip with
      | succ skip => rw [readFrom, ih, List.drop_succ_cons]
      | zero =>
          rw [readFrom, List.drop_zero]
          cases found : codeAt? (c :: rest) with
          | none => simp [ih, Signal.text]
          | some code =>
              obtain ⟨after, written⟩ := eq_of_codeAt?_eq_some found
              have tail : rest = '[' :: code ++ ['m'] ++ after := (List.cons.inj written).2
              have length : ('[' :: code ++ ['m']).length = code.length + 2 := by simp
              simp only [List.flatMap_cons, Signal.text, ih]
              rw [written, tail, List.drop_left' length]

theorem readFrom_char {front : List Char} (free : escape ∉ front) (rest : List Char) :
    readFrom 0 (front ++ rest) = front.map Signal.char ++ readFrom 0 rest := by
  induction front with
  | nil => rfl
  | cons c more ih =>
      rw [List.mem_cons, not_or] at free
      rw [List.cons_append, readFrom, codeAt?_of_ne (Ne.symm free.1)]
      simp only [ih free.2, List.map_cons, List.cons_append]

theorem readFrom_sequenceOf {code : List Char} (isCode : IsCode code) (rest : List Char) :
    readFrom 0 (sequenceOf code ++ rest) = .control code :: readFrom 0 rest := by
  have found := codeAt?_sequenceOf isCode rest
  have length : ('[' :: code ++ ['m']).length = code.length + 2 := by simp
  have written : sequenceOf code ++ rest = escape :: ('[' :: code ++ ['m'] ++ rest) := rfl
  rw [written] at found ⊢
  rw [readFrom, found]
  simp only
  rw [readFrom_eq_drop, List.drop_left' length]

/-- An escape does not go on with what stands before it. -/
theorem codeAt?_append_escape (c : Char) (front rest : List Char) :
    codeAt? (c :: front ++ escape :: rest) = codeAt? (c :: front) := by
  cases front with
  | nil => simp [codeAt?, escape]
  | cons second more =>
      by_cases bracket : second = '['
      · have stop : ¬ Char.isDigit escape = true := by decide
        have taken : (more ++ escape :: rest).takeWhile Char.isDigit = more.takeWhile Char.isDigit := by
          rw [List.takeWhile_append, List.takeWhile_cons_of_neg stop, List.append_nil]
          split
          · rename_i whole
            exact ((List.takeWhile_prefix Char.isDigit).eq_of_length whole).symm
          · rfl
        have marked : ((more ++ escape :: rest).dropWhile Char.isDigit).head? = some 'm' ↔
            (more.dropWhile Char.isDigit).head? = some 'm' := by
          rw [List.dropWhile_append]
          cases more.dropWhile Char.isDigit with
          | nil => simp [escape]
          | cons next others => simp
        subst bracket
        simp only [List.cons_append, codeAt?, taken, marked]
      · simp [codeAt?, bracket]

theorem readFrom_append_escape {skip : Nat} {front : List Char} (inside : skip ≤ front.length) (rest : List Char) :
    readFrom skip (front ++ escape :: rest) = readFrom skip front ++ readFrom 0 (escape :: rest) := by
  induction front generalizing skip with
  | nil =>
      obtain rfl : skip = 0 := by simpa using inside
      rfl
  | cons c more ih =>
      cases skip with
      | succ skip =>
          rw [List.cons_append, readFrom, ih (by simpa using inside), readFrom]
      | zero =>
          rw [List.cons_append, readFrom, ← List.cons_append, codeAt?_append_escape, readFrom]
          cases found : codeAt? (c :: more) with
          | none => simp [ih]
          | some code =>
              obtain ⟨after, written⟩ := eq_of_codeAt?_eq_some found
              have enough : code.length + 2 ≤ more.length := by
                have lengths := congrArg List.length written
                simp [sequenceOf] at lengths
                omega
              simp [ih enough]

/-- The sequence that ends all styles. -/
def resetCode : List Char := ['0']

theorem isCode_reset : IsCode resetCode := by
  refine ⟨by decide, ?_⟩
  intro c member
  rw [List.mem_singleton.mp member]
  decide

/-- Every change of style has a reset after it. -/
def Settles : List Signal → Prop
  | [] => True
  | .char _ :: rest => Settles rest
  | .control code :: rest => (code = resetCode ∨ .control resetCode ∈ rest) ∧ Settles rest

theorem Settles.append {first second : List Signal} (settles : Settles first) (others : Settles second) :
    Settles (first ++ second) := by
  induction first with
  | nil => exact others
  | cons signal rest ih =>
      cases signal with
      | char c => exact ih settles
      | control code => exact ⟨settles.1.imp_right (List.mem_append_left second), ih settles.2⟩

theorem settles_char (cs : List Char) : Settles (cs.map Signal.char) := by
  induction cs with
  | nil => trivial
  | cons c rest ih => exact ih

/-- Whatever changes the style, it is over at a reset. -/
theorem settles_concat_reset (signals : List Signal) : Settles (signals ++ [.control resetCode]) := by
  induction signals with
  | nil => exact ⟨.inl rfl, trivial⟩
  | cons signal rest ih =>
      cases signal with
      | char c => exact ih
      | control code => exact ⟨.inr (by simp), ih⟩

theorem Settles.reset_after {front rest : List Signal} {code : List Char}
    (settles : Settles (front ++ .control code :: rest)) : code = resetCode ∨ .control resetCode ∈ rest := by
  induction front with
  | nil => exact settles.1
  | cons signal more ih =>
      cases signal with
      | char c => exact ih settles
      | control other => exact ih settles.2

/-- In a text that is read so, a reset stands behind every change of style. -/
theorem reset_infix_of_settles {before code after : List Char} (isCode : IsCode code)
    (settles : Settles (readFrom 0 (before ++ sequenceOf code ++ after))) (change : code ≠ resetCode) :
    sequenceOf resetCode <:+: after := by
  have cut : readFrom 0 (before ++ sequenceOf code ++ after) = readFrom 0 before ++ .control code :: readFrom 0 after := by
    have later := readFrom_sequenceOf isCode after
    have escaped : sequenceOf code ++ after = escape :: ('[' :: code ++ ['m'] ++ after) := rfl
    rw [List.append_assoc, escaped, readFrom_append_escape (Nat.zero_le _), ← escaped, later]
  rw [cut] at settles
  have listed := settles.reset_after.resolve_left change
  have whole : (readFrom 0 after).flatMap Signal.text = after := flatMap_text_readFrom 0 after
  rw [← whole, List.flatMap_def]
  exact List.infix_of_mem_flatten (List.mem_map.mpr ⟨_, listed, rfl⟩)

end Terminal

open Terminal

namespace Style

/-- The sequences that start a style: a reset, and then what the style asks for. -/
def codes (style : Style) : List (List Char) :=
  resetCode :: (if style.bold then [['1']] else []) ++ (if style.italic then [['3']] else []) ++
    [('3' :: style.colour.digit.toList)]

theorem toList_control (code : String) : (control code).toList = sequenceOf code.toList := by
  simp [control, sequenceOf, escape]

theorem toList_start (style : Style) : style.start.toList = style.codes.flatMap sequenceOf := by
  cases bold : style.bold <;> cases italic : style.italic <;>
    simp [start, reset, codes, toList_control, bold, italic, resetCode]

theorem isCode_of_mem_codes {style : Style} {code : List Char} (member : code ∈ style.codes) : IsCode code := by
  have all : style.codes.all (fun code => code ≠ [] && code.all Char.isDigit) = true := by
    obtain ⟨colour, bold, italic⟩ := style
    cases colour <;> cases bold <;> cases italic <;> decide
  have own := List.all_eq_true.mp all code member
  simp only [ne_eq, Bool.and_eq_true, decide_eq_true_eq] at own
  exact ⟨own.1, List.all_eq_true.mp own.2⟩

theorem readFrom_codes {codes : List (List Char)} (areCodes : ∀ code ∈ codes, IsCode code) (rest : List Char) :
    readFrom 0 (codes.flatMap sequenceOf ++ rest) = codes.map Signal.control ++ readFrom 0 rest := by
  induction codes with
  | nil => rfl
  | cons code more ih =>
      rw [List.flatMap_cons, List.append_assoc, readFrom_sequenceOf (areCodes code List.mem_cons_self),
        ih fun other member => areCodes other (List.mem_cons_of_mem _ member), List.map_cons, List.cons_append]

end Style

namespace Span

/-- What a terminal reads where a span is coloured. -/
def signals (span : Span) : List Signal :=
  match span.style with
  | some style => style.codes.map Signal.control ++ span.text.toList.map Signal.char ++ [.control resetCode]
  | none => span.text.toList.map Signal.char

theorem readFrom_coloured {span : Span} (free : escape ∉ span.text.toList) (rest : List Char) :
    readFrom 0 (span.coloured.toList ++ rest) = span.signals ++ readFrom 0 rest := by
  obtain ⟨text, style⟩ := span
  cases style with
  | none => exact readFrom_char free rest
  | some style =>
      have ending : readFrom 0 (Style.reset.toList ++ rest) = .control resetCode :: readFrom 0 rest := by
        rw [Style.reset, Style.toList_control]
        exact readFrom_sequenceOf isCode_reset rest
      simp only [coloured, signals, String.toList_append, Style.toList_start, List.append_assoc]
      rw [Style.readFrom_codes fun code => Style.isCode_of_mem_codes, readFrom_char free, ending]
      rfl

theorem filterMap_char (cs : List Char) : (cs.map Signal.char).filterMap Signal.char? = cs := by
  rw [List.filterMap_map]
  exact List.filterMap_some

theorem filterMap_control (codes : List (List Char)) : (codes.map Signal.control).filterMap Signal.char? = [] := by
  rw [List.filterMap_map, List.filterMap_eq_nil_iff]
  exact fun _ _ => rfl

theorem shown_signals (span : Span) : span.signals.filterMap Signal.char? = span.text.toList := by
  unfold signals
  split
  · rw [List.filterMap_append, List.filterMap_append, filterMap_control, filterMap_char, List.nil_append]
    exact List.append_nil _
  · exact filterMap_char _

theorem settles_signals (span : Span) : Settles span.signals := by
  unfold signals
  split
  · exact settles_concat_reset _
  · exact settles_char _

end Span

namespace StyledText

/-- No span has an escape in its text. -/
def EscapeFree (text : StyledText) : Prop := ∀ span ∈ text, escape ∉ span.text.toList

variable {text : StyledText}

theorem readFrom_coloured (free : EscapeFree text) : readFrom 0 (coloured text).toList = text.flatMap Span.signals := by
  rw [coloured, String.toList_join, List.flatMap_map]
  induction text with
  | nil => rfl
  | cons span rest ih =>
      rw [List.flatMap_cons, Span.readFrom_coloured (free span List.mem_cons_self),
        ih fun other member => free other (List.mem_cons_of_mem _ member), List.flatMap_cons]

theorem withoutControls_coloured (free : EscapeFree text) :
    withoutControls (coloured text).toList = (plain text).toList := by
  rw [withoutControls, readFrom_coloured free, plain, String.toList_join, List.flatMap_map, List.filterMap_flatMap]
  simp only [Span.shown_signals]

theorem settles_coloured (free : EscapeFree text) : Settles (readFrom 0 (coloured text).toList) := by
  rw [readFrom_coloured free]
  clear free
  induction text with
  | nil => trivial
  | cons span rest ih =>
      rw [List.flatMap_cons]
      exact span.settles_signals.append ih

end StyledText

end ApiReference

import ApiReference.Text.Markup

namespace ApiReference

/-! The bars that divide the cells of a table row, and what becomes of them and of line feeds in the ways
in which a text is written into a cell. -/

namespace Chars

/-- The bars with no backslash right before them, in a text that stands behind the given character. -/
def openBarsAfter (previous : Char) : List Char → Nat
  | [] => 0
  | c :: rest => (if c = '|' ∧ previous ≠ '\\' then 1 else 0) + openBarsAfter c rest

/-- Of what stands before a text, only a backslash counts. -/
theorem openBarsAfter_congr {previous other : Char} (same : previous = '\\' ↔ other = '\\') (cs : List Char) :
    openBarsAfter previous cs = openBarsAfter other cs := by
  cases cs with
  | nil => rfl
  | cons c rest => simp only [openBarsAfter, ne_eq, same]

theorem openBarsAfter_cons {c : Char} (noBar : c ≠ '|') (previous : Char) (rest : List Char) :
    openBarsAfter previous (c :: rest) = openBarsAfter c rest := by
  rw [openBarsAfter, if_neg fun bar => noBar bar.1, Nat.zero_add]

/-- A character that is no bar parts a text in two. -/
theorem openBarsAfter_append_cons {c : Char} (noBar : c ≠ '|') (previous : Char) (front rest : List Char) :
    openBarsAfter previous (front ++ c :: rest) = openBarsAfter previous front + openBarsAfter c rest := by
  induction front generalizing previous with
  | nil => rw [List.nil_append, openBarsAfter_cons noBar, openBarsAfter, Nat.zero_add]
  | cons first more ih => rw [List.cons_append, openBarsAfter, ih, openBarsAfter, Nat.add_assoc]

theorem openBarsAfter_of_not_mem {cs : List Char} (absent : '|' ∉ cs) (previous : Char) :
    openBarsAfter previous cs = 0 := by
  induction cs generalizing previous with
  | nil => rfl
  | cons c rest ih =>
      rw [List.mem_cons, not_or] at absent
      rw [openBarsAfter_cons fun bar => absent.1 bar.symm, ih absent.2]

theorem mem_of_mem_escapeEmphasis {c : Char} {cs : List Char} (member : c ∈ escapeEmphasis cs) :
    c = '\\' ∨ c ∈ cs := by
  obtain ⟨d, inside, written⟩ := List.mem_flatMap.mp member
  split at written
  · rcases List.mem_cons.mp written with rfl | written
    · exact .inl rfl
    · exact .inr (List.mem_singleton.mp written ▸ inside)
  · exact .inr (List.mem_singleton.mp written ▸ inside)

theorem hexDigit_isAlphanum {n : Nat} (digit : n < 16) : (hexDigit n).isAlphanum = true := by
  have all : ∀ n < 16, (hexDigit n).isAlphanum = true := by decide
  exact all n digit

theorem hexDigit_ne {c : Char} (other : c.isAlphanum = false) {n : Nat} (digit : n < 16) : hexDigit n ≠ c := by
  rintro rfl
  rw [hexDigit_isAlphanum digit] at other
  cases other

theorem toNat_lt_of_isControl {c : Char} (control : isControl c = true) : c.toNat < 256 := by
  simp only [isControl, Bool.or_eq_true, Bool.and_eq_true, decide_eq_true_eq, Char.lt_def, Char.le_def,
    UInt32.lt_iff_toNat_lt, UInt32.le_iff_toNat_le] at control
  have blank : ' '.val.toNat = 32 := rfl
  have last : '\u009f'.val.toNat = 159 := rfl
  change c.val.toNat < 256
  omega

/-- A control character is written with digits at the end, so that a bar behind it stays open. -/
theorem openBarsAfter_escapeUnprintable (previous : Char) (cs : List Char) :
    openBarsAfter previous (escapeUnprintable cs) = openBarsAfter previous cs := by
  induction cs generalizing previous with
  | nil => rfl
  | cons c rest ih =>
      rw [escapeUnprintable, List.flatMap_cons]
      change openBarsAfter previous (_ ++ escapeUnprintable rest) = _
      split
      · rename_i control
        have small := toNat_lt_of_isControl control
        have high : c.toNat / 16 < 16 := by omega
        have low : c.toNat % 16 < 16 := by omega
        have plain : c ≠ '|' ∧ c ≠ '\\' := by
          constructor <;> · rintro rfl; exact absurd control (by decide)
        have ended : hexDigit (c.toNat % 16) = '\\' ↔ c = '\\' :=
          iff_of_false (hexDigit_ne rfl low) plain.2
        simp only [List.cons_append, List.nil_append]
        rw [openBarsAfter_cons (by decide), openBarsAfter_cons (by decide), openBarsAfter_cons (hexDigit_ne rfl high),
          openBarsAfter_cons (hexDigit_ne rfl low), openBarsAfter_cons plain.1, ih, openBarsAfter_congr ended]
      · rw [List.singleton_append, openBarsAfter, openBarsAfter, ih]

theorem openBarsAfter_singleLine (previous : Char) (cs : List Char) :
    openBarsAfter previous (singleLine cs) = openBarsAfter previous cs := by
  induction cs generalizing previous with
  | nil => rfl
  | cons c rest ih =>
      rw [singleLine, List.map_cons]
      change openBarsAfter previous (_ :: singleLine rest) = _
      split
      · rename_i feed
        have ended : ' ' = '\\' ↔ c = '\\' := by rw [feed]; decide
        rw [openBarsAfter_cons (by decide), openBarsAfter_cons (by rw [feed]; decide), ih, openBarsAfter_congr ended]
      · rw [openBarsAfter, openBarsAfter, ih]

theorem feed_not_mem_escapeUnprintable (cs : List Char) : '\n' ∉ escapeUnprintable cs := by
  intro member
  obtain ⟨c, _, written⟩ := List.mem_flatMap.mp member
  split at written
  · rename_i control
    have small := toNat_lt_of_isControl control
    have high := @hexDigit_ne '\n' rfl (c.toNat / 16) (by omega)
    have low := @hexDigit_ne '\n' rfl (c.toNat % 16) (by omega)
    simp [high.symm, low.symm] at written
  · rename_i printable
    rw [← List.mem_singleton.mp written] at printable
    exact printable (by decide)

theorem feed_not_mem_singleLine (cs : List Char) : '\n' ∉ singleLine cs := by
  intro member
  obtain ⟨c, _, written⟩ := List.mem_map.mp member
  split at written
  · cases written
  · rename_i other
    exact other written

end Chars

namespace Text

/-- How many bars of a text have no backslash right before them. -/
def openBars (text : String) : Nat := Chars.openBarsAfter ' ' text.toList

theorem openBars_of_not_mem {text : String} (absent : '|' ∉ text.toList) : openBars text = 0 :=
  Chars.openBarsAfter_of_not_mem absent ' '

theorem not_mem_escapeEmphasis {c : Char} (noBackslash : c ≠ '\\') {text : String} (absent : c ∉ text.toList) :
    c ∉ (escapeEmphasis text).toList := by
  rw [escapeEmphasis, String.toList_ofList]
  intro member
  rcases Chars.mem_of_mem_escapeEmphasis member with backslash | inside
  · exact noBackslash backslash
  · exact absent inside

theorem openBars_singleLine (text : String) : openBars (singleLine text) = openBars text := by
  rw [openBars, singleLine, String.toList_ofList, Chars.openBarsAfter_singleLine, openBars]

theorem feed_not_mem_singleLine (text : String) : '\n' ∉ (singleLine text).toList := by
  rw [singleLine, String.toList_ofList]
  exact Chars.feed_not_mem_singleLine _

end Text

end ApiReference

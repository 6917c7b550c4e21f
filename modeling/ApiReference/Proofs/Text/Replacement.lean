import ApiReference.Text.Line
import Mathlib.Data.List.Infix

namespace ApiReference

/-! Replacing the occurrences of a pattern in a text. -/

namespace Chars

variable {pattern replacement : List Char}

theorem prefix_append_cons_iff {c : Char} (absent : c ∉ pattern) {before : List Char} (after : List Char) :
    pattern <+: before ++ c :: after ↔ pattern <+: before := by
  constructor
  · intro begins
    rcases Nat.lt_or_ge before.length pattern.length with longer | shorter
    · have reached : before ++ [c] <+: before ++ c :: after := ⟨after, by simp⟩
      have inside : before ++ [c] <+: pattern :=
        List.prefix_of_prefix_length_le reached begins (by rw [List.length_append]; exact longer)
      exact absurd (inside.subset (by simp)) absent
    · exact List.prefix_of_prefix_length_le begins (List.prefix_append _ _) shorter
  · intro begins
    exact begins.trans (List.prefix_append _ _)

theorem isPrefixOf_append_cons {c : Char} (absent : c ∉ pattern) (before after : List Char) :
    pattern.isPrefixOf (before ++ c :: after) = pattern.isPrefixOf before := by
  rw [Bool.eq_iff_iff, List.isPrefixOf_iff_prefix, List.isPrefixOf_iff_prefix, prefix_append_cons_iff absent]

theorem replaceFrom_skip (skip : Nat) (text : List Char) :
    replaceFrom pattern replacement skip text = replaceFrom pattern replacement 0 (text.drop skip) := by
  induction skip generalizing text with
  | zero => rfl
  | succ skip ih =>
      cases text with
      | nil => rfl
      | cons c rest => exact ih rest

theorem replaceFrom_append_pattern (nonempty : pattern ≠ []) (rest : List Char) :
    replaceFrom pattern replacement 0 (pattern ++ rest) =
      replacement ++ replaceFrom pattern replacement 0 rest := by
  obtain ⟨first, more, rfl⟩ := List.exists_cons_of_ne_nil nonempty
  rw [List.cons_append, replaceFrom, if_pos (by simp), replaceFrom_skip]
  simp

theorem replaceFrom_whole (replacement : List Char) (nonempty : pattern ≠ []) :
    replaceFrom pattern replacement 0 pattern = replacement := by
  have replaced : replaceFrom pattern replacement 0 (pattern ++ []) = _ := replaceFrom_append_pattern nonempty []
  simpa [replaceFrom] using replaced

/-- A character that the pattern lacks cuts the text into parts that are treated apart. -/
theorem replaceFrom_append_cons (nonempty : pattern ≠ []) {c : Char} (absent : c ∉ pattern) {skip : Nat}
    {before : List Char} (within : skip ≤ before.length) (after : List Char) :
    replaceFrom pattern replacement skip (before ++ c :: after) =
      replaceFrom pattern replacement skip before ++ c :: replaceFrom pattern replacement 0 after := by
  induction before generalizing skip with
  | nil =>
      obtain rfl : skip = 0 := by simpa using within
      have never : ¬ pattern.isPrefixOf (c :: after) = true := by
        rw [← List.nil_append (c :: after), isPrefixOf_append_cons absent, List.isPrefixOf_iff_prefix, List.prefix_nil]
        exact nonempty
      simp [replaceFrom, never]
  | cons first rest ih =>
      cases skip with
      | succ skip => exact ih (by simpa using within)
      | zero =>
          have prefixes := isPrefixOf_append_cons absent (first :: rest) after
          rw [List.cons_append] at prefixes
          rw [List.cons_append, replaceFrom, replaceFrom, prefixes]
          split
          · rename_i found
            have fits := (List.isPrefixOf_iff_prefix.mp found).length_le
            rw [List.length_cons] at fits
            rw [ih (by omega), List.append_assoc]
          · rw [ih (by simp), List.cons_append]

theorem replaceFrom_of_not_infix {text : List Char} (absent : ¬ pattern <:+: text) :
    replaceFrom pattern replacement 0 text = text := by
  induction text with
  | nil => rfl
  | cons c rest ih =>
      have never : ¬ pattern.isPrefixOf (c :: rest) = true := fun found =>
        absent (List.isPrefixOf_iff_prefix.mp found).isInfix
      rw [replaceFrom, if_neg never, ih fun inside => absent (inside.trans (List.suffix_cons c rest).isInfix)]

theorem mem_replaceFrom {c : Char} {skip : Nat} {text : List Char}
    (member : c ∈ replaceFrom pattern replacement skip text) : c ∈ text ∨ c ∈ replacement := by
  induction text generalizing skip with
  | nil => cases skip <;> cases member
  | cons first rest ih =>
      have later : ∀ {skip}, c ∈ replaceFrom pattern replacement skip rest → c ∈ first :: rest ∨ c ∈ replacement :=
        fun found => (ih found).imp_left (List.mem_cons_of_mem _)
      cases skip with
      | succ skip => exact later member
      | zero =>
          rw [replaceFrom] at member
          split at member
          · rcases List.mem_append.mp member with inside | beyond
            · exact .inr inside
            · exact later beyond
          · rcases List.mem_cons.mp member with rfl | beyond
            · exact .inl List.mem_cons_self
            · exact later beyond

/-- Up to the first occurrence nothing changes. -/
theorem exists_replaceFrom_of_infix (replacement : List Char) (nonempty : pattern ≠ []) {text : List Char}
    (inside : pattern <:+: text) :
    ∃ before rest, text = before ++ (pattern ++ rest) ∧
      replaceFrom pattern replacement 0 text =
        before ++ (replacement ++ replaceFrom pattern replacement 0 rest) := by
  induction text with
  | nil => exact absurd (List.infix_nil.mp inside) nonempty
  | cons c others ih =>
      by_cases found : pattern <+: c :: others
      · obtain ⟨rest, split⟩ := found
        exact ⟨[], rest, split.symm, by rw [← split, replaceFrom_append_pattern nonempty, List.nil_append]⟩
      · obtain ⟨before, rest, split, replaced⟩ := ih ((List.infix_cons_iff.mp inside).resolve_left found)
        refine ⟨c :: before, rest, by rw [split, List.cons_append], ?_⟩
        rw [replaceFrom, if_neg (mt List.isPrefixOf_iff_prefix.mp found), replaced, List.cons_append]

/-- Every occurrence changes the length by the same amount. -/
theorem length_replaceFrom (replacement : List Char) (nonempty : pattern ≠ []) (text : List Char) {skip : Nat}
    (within : skip ≤ text.length) :
    ∃ hits, (replaceFrom pattern replacement skip text).length + skip + hits * pattern.length =
      text.length + hits * replacement.length := by
  have positive := List.length_pos_iff.mpr nonempty
  induction text generalizing skip with
  | nil => exact ⟨0, by simpa [replaceFrom] using within⟩
  | cons c rest ih =>
      cases skip with
      | succ skip =>
          obtain ⟨hits, counted⟩ := ih (by simpa using within)
          exact ⟨hits, by rw [replaceFrom, List.length_cons]; omega⟩
      | zero =>
          by_cases found : pattern.isPrefixOf (c :: rest) = true
          · have fits := (List.isPrefixOf_iff_prefix.mp found).length_le
            rw [List.length_cons] at fits
            have enough : pattern.length - 1 ≤ rest.length := by omega
            obtain ⟨hits, counted⟩ := ih enough
            refine ⟨hits + 1, ?_⟩
            rw [replaceFrom, if_pos found, List.length_append, List.length_cons, Nat.add_mul, Nat.add_mul]
            omega
          · obtain ⟨hits, counted⟩ := ih (Nat.zero_le _)
            refine ⟨hits, ?_⟩
            rw [replaceFrom, if_neg found, List.length_cons, List.length_cons]
            omega

theorem replaceFrom_pattern (nonempty : pattern ≠ []) (text : List Char) (skip : Nat) :
    replaceFrom pattern pattern skip text = text.drop skip := by
  induction text generalizing skip with
  | nil => simp [replaceFrom]
  | cons c rest ih =>
      cases skip with
      | succ skip => exact ih skip
      | zero =>
          by_cases found : pattern <+: c :: rest
          · obtain ⟨first, more, rfl⟩ := List.exists_cons_of_ne_nil nonempty
            obtain ⟨tail, split⟩ := found
            obtain ⟨rfl, rfl⟩ : first = c ∧ more ++ tail = rest := by simpa using split
            rw [replaceFrom, if_pos (by simp), ih]
            simp
          · rw [replaceFrom, if_neg (mt List.isPrefixOf_iff_prefix.mp found), ih]
            rfl

theorem replaceFrom_eq_self_iff (nonempty : pattern ≠ []) {text : List Char} :
    replaceFrom pattern replacement 0 text = text ↔ ¬ pattern <:+: text ∨ replacement = pattern := by
  constructor
  · intro kept
    rw [Classical.or_iff_not_imp_left, not_not]
    intro inside
    obtain ⟨before, rest, split, replaced⟩ := exists_replaceFrom_of_infix replacement nonempty inside
    have same : replacement ++ replaceFrom pattern replacement 0 rest = pattern ++ rest := by
      rw [replaced, split] at kept
      exact List.append_cancel_left kept
    obtain ⟨hits, counted⟩ := length_replaceFrom replacement nonempty rest (Nat.zero_le _)
    have lengths := congrArg List.length same
    rw [List.length_append, List.length_append] at lengths
    have equal : (hits + 1) * replacement.length = (hits + 1) * pattern.length := by
      rw [Nat.add_mul, Nat.add_mul]
      omega
    exact (List.append_inj same (Nat.eq_of_mul_eq_mul_left (Nat.succ_pos hits) equal)).1
  · rintro (absent | rfl)
    · exact replaceFrom_of_not_infix absent
    · exact replaceFrom_pattern nonempty text 0

end Chars

namespace Text

variable {pattern replacement text : String}

theorem replace_eq_self_iff (nonempty : pattern ≠ "") :
    replace pattern replacement text = text ↔ ¬ pattern.toList <:+: text.toList ∨ replacement = pattern := by
  have full : pattern.toList ≠ [] := by simpa using nonempty
  rw [← String.toList_inj, replace, String.toList_ofList, Chars.replaceFrom_eq_self_iff full, String.toList_inj]

theorem all_replace {condition : Char → Bool} (textHolds : text.toList.all condition = true)
    (replacementHolds : replacement.toList.all condition = true) :
    (replace pattern replacement text).toList.all condition = true := by
  rw [replace, String.toList_ofList, List.all_eq_true]
  intro c member
  rcases Chars.mem_replaceFrom member with inside | inside
  · exact List.all_eq_true.mp textHolds c inside
  · exact List.all_eq_true.mp replacementHolds c inside

/-- What holds of the characters of neither text does not come to hold by a replacement. -/
theorem all_replace_eq_false {condition : Char → Bool} (nonempty : pattern ≠ "")
    (textFails : text.toList.all condition = false) (replacementFails : replacement.toList.all condition = false) :
    (replace pattern replacement text).toList.all condition = false := by
  have full : pattern.toList ≠ [] := by simpa using nonempty
  rw [replace, String.toList_ofList]
  by_cases inside : pattern.toList <:+: text.toList
  · obtain ⟨before, rest, _, replaced⟩ := Chars.exists_replaceFrom_of_infix replacement.toList full inside
    rw [replaced, List.all_append, List.all_append, replacementFails, Bool.false_and, Bool.and_false]
  · rw [Chars.replaceFrom_of_not_infix inside, textFails]

end Text

end ApiReference

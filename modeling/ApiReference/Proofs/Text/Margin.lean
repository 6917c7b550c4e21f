import ApiReference.Proofs.Text.Line

namespace ApiReference.Chars

/-! The lines of a text with blanks around it. -/

theorem ne_of_visible {c : Char} (visible : isBlank c = false) : c ≠ '\n' ∧ c ≠ '\r' := by
  constructor
  · rintro rfl
    exact absurd visible (by decide)
  · rintro rfl
    exact absurd visible (by decide)

theorem head?_append_ne_feed {front rest : List Char} {c : Char} (visible : isBlank c = false)
    (other : front.head? ≠ some '\n') : (front ++ c :: rest).head? ≠ some '\n' := by
  cases front with
  | nil => simpa using (ne_of_visible visible).1
  | cons first more => simpa using other

theorem exists_lines_of_visible {first : Char} (visible : isBlank first = false) (rest : List Char) :
    ∃ line more, lines (first :: rest) = (first :: line) :: more := by
  obtain ⟨noFeed, noReturn⟩ := ne_of_visible visible
  rw [lines_cons noFeed fun isReturn => absurd isReturn noReturn]
  cases lines rest with
  | nil => exact ⟨[], [], rfl⟩
  | cons line more => exact ⟨line, more, rfl⟩

/-- Blanks before a text are blank lines and the indentation of its first line. -/
theorem lines_append_front {front : List Char} (blank : ∀ c ∈ front, isBlank c = true) {first : Char}
    (visible : isBlank first = false) {rest line : List Char} {more : List (List Char)}
    (written : lines (first :: rest) = line :: more) :
    ∃ skipped indent, lines (front ++ first :: rest) = skipped ++ (indent ++ line) :: more ∧
      (∀ line ∈ skipped, ∀ c ∈ line, isBlank c = true) ∧ ∀ c ∈ indent, isBlank c = true := by
  induction front using lines_induction with
  | empty => exact ⟨[], [], written, by simp, by simp⟩
  | feed front ih =>
      obtain ⟨skipped, indent, lines, skippedBlank, indentBlank⟩ := ih fun c member => blank c (by simp [member])
      refine ⟨[] :: skipped, indent, ?_, ?_, indentBlank⟩
      · simp [Chars.lines, lines]
      · simpa using skippedBlank
  | both front ih =>
      obtain ⟨skipped, indent, lines, skippedBlank, indentBlank⟩ := ih fun c member => blank c (by simp [member])
      refine ⟨[] :: skipped, indent, ?_, ?_, indentBlank⟩
      · simp [Chars.lines, lines]
      · simpa using skippedBlank
  | other c front noFeed noReturn ih =>
      obtain ⟨skipped, indent, lines, skippedBlank, indentBlank⟩ := ih fun c member => blank c (by simp [member])
      have unended : c = '\r' → (front ++ first :: rest).head? ≠ some '\n' :=
        fun isReturn => head?_append_ne_feed visible (noReturn isReturn)
      rw [List.cons_append, lines_cons noFeed unended, lines]
      cases skipped with
      | nil => exact ⟨[], c :: indent, rfl, by simp, by simpa [blank c] using indentBlank⟩
      | cons skip others =>
          refine ⟨(c :: skip) :: others, indent, rfl, ?_, indentBlank⟩
          simpa [blank c] using skippedBlank

/-- Blanks behind a text are the end of its last line and blank lines. -/
theorem lines_append_tail {tail : List Char} (blank : ∀ c ∈ tail, isBlank c = true) {last : Char}
    (visible : isBlank last = false) (front : List Char) :
    ∃ init final ending skipped, lines (front ++ [last]) = init ++ [final] ∧
      lines (front ++ last :: tail) = init ++ (final ++ ending) :: skipped ∧
      (∀ c ∈ ending, isBlank c = true) ∧ ∀ line ∈ skipped, ∀ c ∈ line, isBlank c = true := by
  induction front using lines_induction with
  | empty =>
      obtain ⟨noFeed, noReturn⟩ := ne_of_visible visible
      have unended : last = '\r' → tail.head? ≠ some '\n' := fun isReturn => absurd isReturn noReturn
      have ended := lines_cons noFeed unended
      have blankLines : ∀ line ∈ lines tail, ∀ c ∈ line, isBlank c = true :=
        fun line member c inside => blank c (mem_of_mem_lines member inside).1
      have single : lines [last] = [[last]] := lines_of_unbroken (by simpa using noFeed.symm) (by simp)
      cases found : lines tail with
      | nil =>
          rw [found] at ended
          exact ⟨[], [last], [], [], single, ended, by simp, by simp⟩
      | cons line more =>
          rw [found] at ended blankLines
          exact ⟨[], [last], line, more, single, ended, blankLines line (by simp),
            fun other member => blankLines other (by simp [member])⟩
  | feed front ih =>
      obtain ⟨init, final, ending, skipped, trimmed, whole, endingBlank, skippedBlank⟩ := ih
      exact ⟨[] :: init, final, ending, skipped, by simp [lines, trimmed], by simp [lines, whole], endingBlank, skippedBlank⟩
  | both front ih =>
      obtain ⟨init, final, ending, skipped, trimmed, whole, endingBlank, skippedBlank⟩ := ih
      exact ⟨[] :: init, final, ending, skipped, by simp [lines, trimmed], by simp [lines, whole], endingBlank, skippedBlank⟩
  | other c front noFeed noReturn ih =>
      obtain ⟨init, final, ending, skipped, trimmed, whole, endingBlank, skippedBlank⟩ := ih
      have unended : ∀ rest, c = '\r' → (front ++ last :: rest).head? ≠ some '\n' :=
        fun rest isReturn => head?_append_ne_feed visible (noReturn isReturn)
      rw [List.cons_append, lines_cons noFeed (unended []), trimmed, List.cons_append, lines_cons noFeed (unended tail), whole]
      cases init with
      | nil => exact ⟨[], c :: final, ending, skipped, rfl, rfl, endingBlank, skippedBlank⟩
      | cons line others => exact ⟨(c :: line) :: others, final, ending, skipped, rfl, rfl, endingBlank, skippedBlank⟩

theorem exists_trimStart (cs : List Char) :
    (∀ c ∈ cs, isBlank c = true) ∨ ∃ front first rest, cs = front ++ first :: rest ∧ trimStart cs = first :: rest ∧
      (∀ c ∈ front, isBlank c = true) ∧ isBlank first = false := by
  have whole : cs.takeWhile isBlank ++ trimStart cs = cs := List.takeWhile_append_dropWhile
  cases kept : trimStart cs with
  | nil => exact .inl (List.dropWhile_eq_nil_iff.mp kept)
  | cons first rest =>
      have stopped := List.head?_dropWhile_not isBlank cs
      have begins : (cs.dropWhile isBlank).head? = some first := congrArg List.head? kept
      rw [begins] at stopped
      refine .inr ⟨cs.takeWhile isBlank, first, rest, by rw [← kept, whole], rfl, ?_, ?_⟩
      · exact fun c member => List.mem_takeWhile_imp member
      · exact stopped

theorem exists_trimEnd (cs : List Char) :
    (∀ c ∈ cs, isBlank c = true) ∨ ∃ front last tail, cs = front ++ last :: tail ∧ trimEnd cs = front ++ [last] ∧
      (∀ c ∈ tail, isBlank c = true) ∧ isBlank last = false := by
  rcases exists_trimStart cs.reverse with blank | ⟨tail, last, front, reversed, kept, blank, visible⟩
  · exact .inl fun c member => blank c (List.mem_reverse.mpr member)
  · refine .inr ⟨front.reverse, last, tail.reverse, ?_, ?_, ?_, visible⟩
    · rw [← List.reverse_reverse cs, reversed]
      simp
    · change (trimStart cs.reverse).reverse = _
      rw [kept, List.reverse_cons]
    · exact fun c member => blank c (List.mem_reverse.mp member)

end ApiReference.Chars

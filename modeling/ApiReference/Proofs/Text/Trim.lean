import ApiReference.Text.Blank
import Mathlib.Data.List.DropRight
import Mathlib.Data.List.TakeWhile

namespace ApiReference

/-! What is left of a text after trimming. -/

namespace Chars

theorem trimEnd_eq_nil_iff {cs : List Char} : trimEnd cs = [] ↔ ∀ c ∈ cs, isBlank c = true := by
  simp [trimEnd, List.dropWhile_eq_nil_iff]

theorem trim_eq_nil_iff {cs : List Char} : trim cs = [] ↔ ∀ c ∈ cs, isBlank c = true := by
  rw [trim, trimEnd_eq_nil_iff, trimStart]
  constructor
  · intro blank
    cases kept : cs.dropWhile isBlank with
    | nil => exact List.dropWhile_eq_nil_iff.mp kept
    | cons first rest =>
        have stopped := List.head_dropWhile_not isBlank (l := cs) (by simp [kept])
        simp only [kept, List.head_cons] at stopped
        simp [blank first (by simp [kept])] at stopped
  · intro blank c member
    exact blank c (List.dropWhile_subset isBlank member)

theorem trim_eq_self_iff {cs : List Char} :
    trim cs = cs ↔
      (∀ c, cs.head? = some c → isBlank c = false) ∧ ∀ c, cs.getLast? = some c → isBlank c = false := by
  have start : trimStart cs = cs ↔ ∀ c, cs.head? = some c → isBlank c = false := by
    cases cs with
    | nil => simp [trimStart]
    | cons first rest => simp [trimStart, List.dropWhile_eq_self_iff]
  have finish : trimEnd cs = cs ↔ ∀ c, cs.getLast? = some c → isBlank c = false := by
    change cs.rdropWhile isBlank = cs ↔ _
    rw [List.rdropWhile_eq_self_iff]
    constructor
    · intro ends c last
      obtain ⟨front, rfl⟩ := List.getLast?_eq_some_iff.mp last
      simpa using ends (by simp)
    · intro ends nonempty
      simpa using ends _ (List.getLast?_eq_some_getLast nonempty)
  rw [← start, ← finish]
  constructor
  · intro trimmed
    have kept : (trimEnd (trimStart cs)).length = cs.length := congrArg List.length trimmed
    have fromEnd : (trimEnd (trimStart cs)).length ≤ (trimStart cs).length :=
      (List.rdropWhile_prefix isBlank (trimStart cs)).length_le
    have whole : trimStart cs = cs :=
      (List.dropWhile_suffix isBlank).eq_of_length_le (kept.symm.trans_le fromEnd)
    refine ⟨whole, ?_⟩
    rw [trim, whole] at trimmed
    exact trimmed
  · rintro ⟨whole, ended⟩
    rw [trim, whole, ended]

theorem trim_append_of_blank {cs tail : List Char} (blank : ∀ c ∈ tail, isBlank c = true) :
    trim (cs ++ tail) = trim cs := by
  by_cases allBlank : ∀ c ∈ cs, isBlank c = true
  · have left : trim (cs ++ tail) = [] := by
      rw [trim_eq_nil_iff]
      intro c member
      rcases List.mem_append.mp member with member | member
      · exact allBlank c member
      · exact blank c member
    rw [left, trim_eq_nil_iff.mpr allBlank]
  · have stopped : (cs ++ tail).dropWhile isBlank = cs.dropWhile isBlank ++ tail := by
      rw [List.dropWhile_append, if_neg]
      simpa [List.isEmpty_iff, List.dropWhile_eq_nil_iff] using allBlank
    change ((cs ++ tail).dropWhile isBlank).rdropWhile isBlank = (cs.dropWhile isBlank).rdropWhile isBlank
    rw [stopped]
    unfold List.rdropWhile
    rw [List.reverse_append, List.dropWhile_append_of_pos]
    intro c member
    exact blank c (List.mem_reverse.mp member)

theorem trim_cons_of_blank {c : Char} {cs : List Char} (blank : isBlank c = true) :
    trim (c :: cs) = trim cs := by
  simp [trim, trimStart, blank]

end Chars

namespace Text

theorem trim_eq_empty_iff {text : String} : trim text = "" ↔ isBlank text = true := by
  rw [← String.toList_eq_nil_iff, toList_trim, Chars.trim_eq_nil_iff, isBlank, List.all_eq_true]

end Text

end ApiReference

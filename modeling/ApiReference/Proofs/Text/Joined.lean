import ApiReference.Proofs.Text.Line
import Mathlib.Algebra.GroupWithZero.Nat
import Mathlib.Data.List.Induction

namespace ApiReference.Text

/-! Trimmed pieces that are joined by blanks.

Trimming the joined text takes off the empty pieces at its ends and cuts into no other
(`trim_intercalate_pieces`), so that the pieces can be found in the text again. -/

theorem trim_trim (text : String) : trim (trim text) = trim text :=
  trim_eq_self_iff.mpr ⟨fun _ => head?_trimMatching, fun _ => getLast?_trimMatching⟩

theorem trim_subset (text : String) : (trim text).toList ⊆ text.toList := by
  have inside : (trim text).toList <:+: text.toList := trimMatching_infix Chars.isBlank text
  exact inside.subset

theorem trim_append_of_blank_front {front : String} (blank : ∀ c ∈ front.toList, Chars.isBlank c = true)
    (text : String) : trim (front ++ text) = trim text := by
  rw [trim, trim, String.toList_append, Chars.trim, Chars.trim, Chars.trimStart, Chars.trimStart,
    List.dropWhile_append_of_pos blank]

theorem trim_append_of_blank {tail : String} (blank : ∀ c ∈ tail.toList, Chars.isBlank c = true)
    (text : String) : trim (text ++ tail) = trim text := by
  rw [trim, trim, String.toList_append, Chars.trim_append_of_blank blank]

/-- The pieces from the first to the last one that is not empty. -/
def withoutEmptyEnds (pieces : List String) : List String :=
  (pieces.dropWhile (· = "")).rdropWhile (· = "")

theorem mem_of_mem_withoutEmptyEnds {pieces : List String} {piece : String}
    (member : piece ∈ withoutEmptyEnds pieces) : piece ∈ pieces :=
  List.dropWhile_subset _ ((List.rdropWhile_prefix _ _).subset member)

/-- The first and the last piece that are left are not empty. -/
theorem ends_of_withoutEmptyEnds (pieces : List String) :
    (withoutEmptyEnds pieces).head? ≠ some "" ∧ (withoutEmptyEnds pieces).getLast? ≠ some "" := by
  constructor
  · intro first
    obtain ⟨back, whole⟩ := List.rdropWhile_prefix (· = "") (pieces.dropWhile (· = ""))
    have stopped := List.head?_dropWhile_not (· = "") pieces
    rw [← whole, List.head?_append] at stopped
    change ((pieces.dropWhile (· = "")).rdropWhile (· = "")).head? = some "" at first
    simp [first] at stopped
  · intro last
    rw [withoutEmptyEnds, List.rdropWhile, List.getLast?_reverse] at last
    have stopped := List.head?_dropWhile_not (· = "") (pieces.dropWhile (· = "")).reverse
    simp [last] at stopped

/-- Only empty pieces are taken off. -/
theorem filter_withoutEmptyEnds (pieces : List String) :
    (withoutEmptyEnds pieces).filter (· ≠ "") = pieces.filter (· ≠ "") := by
  have front : ∀ pieces : List String, (pieces.dropWhile (· = "")).filter (· ≠ "") = pieces.filter (· ≠ "") := by
    intro pieces
    induction pieces with
    | nil => rfl
    | cons piece more ih =>
        by_cases empty : piece = ""
        · simpa [empty] using ih
        · simp [empty]
  rw [withoutEmptyEnds, List.rdropWhile, List.filter_reverse, front, List.filter_reverse, List.reverse_reverse, front]

theorem withoutEmptyEnds_eq_nil (separator : String) {pieces : List String}
    (empty : separator.intercalate (withoutEmptyEnds pieces) = "") : withoutEmptyEnds pieces = [] := by
  have ends := ends_of_withoutEmptyEnds pieces
  cases kept : withoutEmptyEnds pieces with
  | nil => rfl
  | cons first more =>
      rw [kept] at ends empty
      have full : first ≠ "" := by simpa using ends.1
      have begins : (separator.intercalate (first :: more)).toList.head? = first.toList.head? :=
        head?_intercalate full
      rw [empty, String.toList_empty, List.head?_nil] at begins
      exact absurd (String.toList_eq_nil_iff.mp (List.head?_eq_none_iff.mp begins.symm)) full

section Joining

variable {separator : String} (blank : ∀ c ∈ separator.toList, Chars.isBlank c = true)

include blank

theorem trim_intercalate_dropWhile (pieces : List String) :
    trim (separator.intercalate (pieces.dropWhile (· = ""))) = trim (separator.intercalate pieces) := by
  induction pieces with
  | nil => rfl
  | cons piece more ih =>
      by_cases empty : piece = ""
      · subst empty
        rw [List.dropWhile_cons_of_pos (by simp), ih]
        by_cases last : more = []
        · simp [last]
        · rw [String.intercalate_cons_of_ne_nil last, String.empty_append, trim_append_of_blank_front blank]
      · rw [List.dropWhile_cons_of_neg (by simpa using empty)]

theorem trim_intercalate_rdropWhile (pieces : List String) :
    trim (separator.intercalate (pieces.rdropWhile (· = ""))) = trim (separator.intercalate pieces) := by
  induction pieces using List.reverseRecOn with
  | nil => rfl
  | append_singleton front piece ih =>
      by_cases empty : piece = ""
      · subst empty
        rw [List.rdropWhile_concat_pos _ _ _ (by simp), ih]
        by_cases first : front = []
        · simp [first]
        · rw [String.intercalate_append_of_ne_nil first (by simp), String.intercalate_singleton,
            String.append_empty, trim_append_of_blank blank]
      · rw [List.rdropWhile_concat_neg _ _ _ (by simpa using empty)]

/-- Trimming takes whole pieces off the ends of a joined text. -/
theorem trim_intercalate_pieces {pieces : List String} (trimmed : ∀ piece ∈ pieces, trim piece = piece) :
    trim (separator.intercalate pieces) = separator.intercalate (withoutEmptyEnds pieces) := by
  have ends := ends_of_withoutEmptyEnds pieces
  have inner : ∀ piece ∈ withoutEmptyEnds pieces, trim piece = piece :=
    fun piece member => trimmed piece (mem_of_mem_withoutEmptyEnds member)
  rw [← trim_intercalate_dropWhile blank, ← trim_intercalate_rdropWhile blank]
  change trim (separator.intercalate (withoutEmptyEnds pieces)) = _
  rw [trim_eq_self_iff]
  constructor
  · cases kept : withoutEmptyEnds pieces with
    | nil => simp
    | cons first more =>
        rw [kept] at ends inner
        rw [head?_intercalate (by simpa using ends.1)]
        exact (trim_eq_self_iff.mp (inner first (by simp))).1
  · rcases List.eq_nil_or_concat (withoutEmptyEnds pieces) with kept | ⟨front, last, kept⟩
    · simp [kept]
    · rw [List.concat_eq_append] at kept
      rw [kept] at ends inner
      rw [kept, getLast?_intercalate (by simpa using ends.2)]
      exact (trim_eq_self_iff.mp (inner last (by simp))).2

end Joining

/-- The number of characters that are not blank. -/
def visible (text : String) : Nat := text.toList.countP fun c => !Chars.isBlank c

theorem visible_trim (text : String) : visible (trim text) = visible text := by
  have dropped : ∀ cs : List Char,
      (cs.dropWhile Chars.isBlank).countP (fun c => !Chars.isBlank c) = cs.countP fun c => !Chars.isBlank c := by
    intro cs
    induction cs with
    | nil => rfl
    | cons c rest ih =>
        by_cases blank : Chars.isBlank c = true
        · simp [blank, ih]
        · simp [blank]
  rw [visible, visible, toList_trim, Chars.trim, Chars.trimEnd, List.countP_reverse, dropped, List.countP_reverse,
    Chars.trimStart, dropped]

theorem visible_append (first second : String) : visible (first ++ second) = visible first + visible second := by
  rw [visible, String.toList_append, List.countP_append]
  rfl

theorem visible_of_blank {text : String} (blank : ∀ c ∈ text.toList, Chars.isBlank c = true) : visible text = 0 := by
  rw [visible, List.countP_eq_zero]
  intro c member
  simp [blank c member]

theorem visible_intercalate {separator : String} (blank : ∀ c ∈ separator.toList, Chars.isBlank c = true)
    (pieces : List String) : visible (separator.intercalate pieces) = (pieces.map visible).sum := by
  induction pieces with
  | nil => rfl
  | cons piece more ih =>
      by_cases last : more = []
      · simp [last]
      · rw [String.intercalate_cons_of_ne_nil last, visible_append, visible_append, visible_of_blank blank, ih,
          List.map_cons, List.sum_cons, Nat.add_zero]

end ApiReference.Text

import ApiReference.Text.Blank
import ApiReference.Text.Casing
import Mathlib.Data.List.Basic

namespace ApiReference

/-! Case mappings leave alone what matters to readers of a text: no mapping makes, changes or
removes a blank, a control, a double quote, a slash or a backslash. To lower case, the letters of
ASCII and those beyond it keep apart but for the Kelvin sign. -/

namespace Casing

/-- The codes of the characters in question, with those that are no characters. -/
def caseless : List (Nat × Nat) :=
  [(0x0000, 0x0020), (0x0022, 0x0022), (0x002f, 0x002f), (0x005c, 0x005c), (0x007f, 0x00a0),
   (0x1680, 0x1680), (0x2000, 0x200a), (0x2028, 0x2029), (0x202f, 0x202f), (0x205f, 0x205f),
   (0x3000, 0x3000), (0xd800, 0xdfff)]

def isCaseless (code : Nat) : Bool :=
  caseless.any fun span => span.1 ≤ code && code ≤ span.2

/-- Neither the run nor its image reaches a caseless code. -/
def Run.isClear (run : Run) : Bool :=
  0 ≤ run.first + run.offset && run.last + run.offset < 0x110000 && caseless.all fun span =>
    (run.last < span.1 || span.2 < run.first) &&
      (run.last + run.offset < span.1 || span.2 < run.first + run.offset)

/-- The characters and their images are not caseless, and each has an image. -/
def isClearSequence (entry : Char × List Char) : Bool :=
  !isCaseless entry.1.toNat && !entry.2.isEmpty && entry.2.all fun image => !isCaseless image.toNat

theorem lowerRuns_clear : lowerRuns.all Run.isClear = true := by decide +kernel

theorem upperRuns_clear : upperRuns.all Run.isClear = true := by decide +kernel

theorem lowerSequences_clear : lowerSequences.all isClearSequence = true := by decide +kernel

theorem upperSequences_clear : upperSequences.all isClearSequence = true := by decide +kernel

/-- A mapping gives every character an image, and a caseless character is no image but its own. -/
structure Keeps (mapping : Char → List Char) : Prop where
  nonempty : ∀ c, mapping c ≠ []
  same : ∀ c, ∀ image ∈ mapping c, isCaseless image.toNat = true ∨ isCaseless c.toNat = true → image = c

theorem Run.isClear.span {run : Run} (clear : run.isClear = true) {code : Nat} (inside : run.contains code = true) :
    isCaseless code = false ∧ isCaseless (code + run.offset).toNat = false ∧
      (code + run.offset).toNat < 0x110000 := by
  simp only [Run.isClear, Bool.and_eq_true, decide_eq_true_eq, List.all_eq_true, Bool.or_eq_true] at clear
  simp only [Run.contains, Bool.and_eq_true, decide_eq_true_eq] at inside
  obtain ⟨⟨positive, bounded⟩, apart⟩ := clear
  obtain ⟨⟨first, last⟩, _⟩ := inside
  refine ⟨List.any_eq_false.mpr ?_, List.any_eq_false.mpr ?_, by omega⟩
  · intro span member
    have outside := (apart span member).1
    simp only [Bool.and_eq_true, decide_eq_true_eq]
    omega
  · intro span member
    have outside := (apart span member).2
    simp only [Bool.and_eq_true, decide_eq_true_eq]
    omega

theorem toNat_ofNat_of_not_caseless {code : Nat} (bounded : code < 0x110000) (cased : isCaseless code = false) :
    (Char.ofNat code).toNat = code := by
  have noSurrogate := List.any_eq_false.mp cased (0xd800, 0xdfff) (by decide)
  simp only [Bool.and_eq_true, decide_eq_true_eq] at noSurrogate
  have valid : code.isValidChar := by
    unfold Nat.isValidChar
    omega
  rw [Char.ofNat, dif_pos valid]
  rfl

theorem shift_eq {runs : List Run} (clear : runs.all Run.isClear = true) {c : Char}
    (either : isCaseless (shift runs c).toNat = true ∨ isCaseless c.toNat = true) : shift runs c = c := by
  unfold shift at either ⊢
  split at either
  · rename_i run found
    have inside := List.find?_some found
    have spans := Run.isClear.span (List.all_eq_true.mp clear run (List.mem_of_find?_eq_some found)) inside
    rw [toNat_ofNat_of_not_caseless spans.2.2 spans.2.1, spans.1, spans.2.1] at either
    simp at either
  · rfl

theorem clear_of_lookup {sequences : List (Char × List Char)} (clear : sequences.all isClearSequence = true)
    {c : Char} {images : List Char} (found : sequences.lookup c = some images) :
    isCaseless c.toNat = false ∧ images ≠ [] ∧ ∀ image ∈ images, isCaseless image.toNat = false := by
  obtain ⟨front, back, split, _⟩ := List.lookup_eq_some_iff.mp found
  have entry := List.all_eq_true.mp clear (c, images) (by simp [split])
  simpa [isClearSequence, and_assoc] using entry

theorem keeps_lookup {sequences : List (Char × List Char)} {runs : List Run}
    (clearSequences : sequences.all isClearSequence = true) (clearRuns : runs.all Run.isClear = true) :
    Keeps (lookup sequences runs) where
  nonempty c := by
    unfold lookup
    split
    · rename_i images found
      exact (clear_of_lookup clearSequences found).2.1
    · exact List.cons_ne_nil _ _
  same c image member either := by
    unfold lookup at member
    split at member
    · rename_i images found
      obtain ⟨cased, _, imagesCased⟩ := clear_of_lookup clearSequences found
      simp [cased, imagesCased image member] at either
    · rw [List.mem_singleton.mp member] at either ⊢
      exact shift_eq clearRuns either

/-- What holds of the characters of ASCII is found by looking at each. -/
theorem keeps_ascii {ascii : Char → Char} {mapping : Char → List Char} (keeps : Keeps mapping)
    (same : ∀ code < 128, isCaseless (ascii (Char.ofNat code)).toNat = true ∨ isCaseless code = true →
      ascii (Char.ofNat code) = Char.ofNat code) :
    Keeps fun c => if c < '\u0080' then [ascii c] else mapping c where
  nonempty c := by
    split
    · exact List.cons_ne_nil _ _
    · exact keeps.nonempty c
  same c image member either := by
    split at member
    · rename_i small
      rw [List.mem_singleton.mp member] at either ⊢
      have found := same c.toNat small
      rw [Char.ofNat_toNat] at found
      exact found either
    · exact keeps.same c image member either

theorem keeps_lower : Keeps lower :=
  keeps_ascii (keeps_lookup lowerSequences_clear lowerRuns_clear) (by decide +kernel)

theorem keeps_upper : Keeps upper :=
  keeps_ascii (keeps_lookup upperSequences_clear upperRuns_clear) (by decide +kernel)

/-- The images of the run are beyond ASCII, unless it is the Kelvin sign alone. -/
def Run.isForeign (run : Run) : Bool :=
  0x80 ≤ run.first + run.offset || run.first = 0x212a && run.last = 0x212a

theorem lowerRuns_foreign : lowerRuns.all Run.isForeign = true := by decide +kernel

theorem lowerSequences_foreign : lowerSequences.all (fun entry => entry.2.any ('\u0080' ≤ ·)) = true := by decide

/-- The lower case of a character beyond ASCII does not become ASCII. The Kelvin sign is the exception. -/
theorem exists_foreign_mem_lower {c : Char} (foreign : '\u0080' ≤ c) (noKelvin : c ≠ '\u212a') :
    ∃ image ∈ lower c, '\u0080' ≤ image := by
  rw [lower, if_neg (Char.not_lt.mpr foreign), lookup]
  cases found : lowerSequences.lookup c with
  | some images =>
      obtain ⟨front, back, split, _⟩ := List.lookup_eq_some_iff.mp found
      have entry := List.all_eq_true.mp lowerSequences_foreign (c, images) (by simp [split])
      simpa using entry
  | none =>
      refine ⟨_, List.mem_singleton_self _, ?_⟩
      rw [shift]
      cases held : lowerRuns.find? (·.contains c.toNat) with
      | none => exact foreign
      | some run =>
          have inside := List.find?_some held
          have member := List.mem_of_find?_eq_some held
          have spans := Run.isClear.span (List.all_eq_true.mp lowerRuns_clear run member) inside
          have image := toNat_ofNat_of_not_caseless spans.2.2 spans.2.1
          have far := List.all_eq_true.mp lowerRuns_foreign run member
          simp only [Run.isForeign, Bool.or_eq_true, Bool.and_eq_true, decide_eq_true_eq] at far
          simp only [Run.contains, Bool.and_eq_true, decide_eq_true_eq] at inside
          have other : c.toNat ≠ 0x212a := fun same => noKelvin (Char.toNat_inj.mp same)
          change 0x80 ≤ (Char.ofNat (c.toNat + run.offset).toNat).toNat
          rw [image]
          omega

theorem toLower_of_foreign {c : Char} (foreign : '\u0080' ≤ c) : c.toLower = c := by
  have noCapital : ¬ (c.val ≥ 'A'.val ∧ c.val ≤ 'Z'.val) := by
    intro capital
    have small : 0x80 ≤ 'Z'.toNat := Nat.le_trans foreign capital.2
    exact absurd small (by decide)
  exact dif_neg noCapital

theorem flatMap_lower_of_ascii {cs : List Char} (ascii : ∀ c ∈ cs, c < '\u0080') :
    cs.flatMap lower = cs.map Char.toLower := by
  rw [List.map_eq_flatMap]
  exact List.flatMap_congr fun c member => if_pos (ascii c member)

/-- For a word of ASCII without `k`, the letters of ASCII decide which texts it is the lower case of. -/
theorem flatMap_lower_eq_iff {cs word : List Char} (plain : ∀ c ∈ word, c < '\u0080' ∧ c ≠ 'k') :
    cs.flatMap lower = word ↔ cs.map Char.toLower = word := by
  constructor
  · intro lowered
    have ascii : ∀ c ∈ cs, c < '\u0080' := by
      intro c member
      by_contra beyond
      have images : ∀ image ∈ lower c, image ∈ word := fun image inside =>
        lowered ▸ List.mem_flatMap.mpr ⟨c, member, inside⟩
      by_cases kelvin : c = '\u212a'
      · have image : 'k' ∈ lower c := by
          rw [kelvin]
          decide +kernel
        exact (plain 'k' (images 'k' image)).2 rfl
      · obtain ⟨image, inside, foreign⟩ := exists_foreign_mem_lower (Char.not_lt.mp beyond) kelvin
        exact absurd (plain image (images image inside)).1 (Char.not_lt.mpr foreign)
    rw [← flatMap_lower_of_ascii ascii, lowered]
  · intro lowered
    have ascii : ∀ c ∈ cs, c < '\u0080' := by
      intro c member
      by_contra beyond
      have image : c.toLower ∈ word := lowered ▸ List.mem_map_of_mem member
      rw [toLower_of_foreign (Char.not_lt.mp beyond)] at image
      exact beyond (plain c image).1
    rw [flatMap_lower_of_ascii ascii, lowered]

/-- A condition that does not tell characters apart unless they are caseless. -/
def Blind (condition : Char → Bool) : Prop :=
  ∀ c, isCaseless c.toNat = false → condition c = condition 'a'

theorem not_span_of_cased {code : Nat} (cased : isCaseless code = false) {span : Nat × Nat} (member : span ∈ caseless) :
    ¬ (span.1 ≤ code ∧ code ≤ span.2) := by
  simpa using List.any_eq_false.mp cased span member

theorem ne_of_cased {c d : Char} (cased : isCaseless c.toNat = false) (caseless : isCaseless d.toNat = true) : c ≠ d := by
  rintro rfl
  rw [cased] at caseless
  cases caseless

theorem blind_isBlank : Blind Chars.isBlank := by
  intro c cased
  have low : ¬ ('\t' ≤ c ∧ c ≤ '\r') := fun ⟨_, last⟩ =>
    not_span_of_cased cased (by decide : (0x0000, 0x0020) ∈ caseless) ⟨Nat.zero_le _, Nat.le_trans last (by decide)⟩
  have high : ¬ ('\u2000' ≤ c ∧ c ≤ '\u200a') := not_span_of_cased cased (by decide : (0x2000, 0x200a) ∈ caseless)
  have other : ∀ d, isCaseless d.toNat = true → c ≠ d := fun _ => ne_of_cased cased
  have noBlank : ¬ Chars.isBlank c = true := by
    simp only [Chars.isBlank, Bool.or_eq_true, Bool.and_eq_true, decide_eq_true_eq, beq_iff_eq, not_or, and_assoc]
    exact ⟨low, other _ rfl, other _ rfl, other _ rfl, other _ rfl, high, other _ rfl, other _ rfl, other _ rfl,
      other _ rfl, other _ rfl⟩
  rw [Bool.not_eq_true] at noBlank
  rw [noBlank]
  rfl

theorem Keeps.condition_eq {mapping : Char → List Char} (keeps : Keeps mapping) {condition : Char → Bool}
    (blind : Blind condition) {c image : Char} (member : image ∈ mapping c) : condition image = condition c := by
  by_cases either : isCaseless image.toNat = true ∨ isCaseless c.toNat = true
  · rw [keeps.same c image member either]
  · simp only [not_or, Bool.not_eq_true] at either
    rw [blind image either.1, blind c either.2]

theorem Keeps.all_eq {mapping : Char → List Char} (keeps : Keeps mapping) {condition : Char → Bool}
    (blind : Blind condition) (c : Char) : (mapping c).all condition = condition c := by
  have same : ∀ image ∈ mapping c, condition image = condition c := fun _ => keeps.condition_eq blind
  cases truth : condition c with
  | true => simpa [truth] using same
  | false =>
      obtain ⟨first, member⟩ := List.exists_mem_of_ne_nil _ (keeps.nonempty c)
      exact List.all_eq_false.mpr ⟨first, member, by simp [same first member, truth]⟩

end Casing

namespace Text

open Casing

theorem all_capitalize {condition : Char → Bool} (blind : Blind condition) (text : String) :
    (capitalize text).toList.all condition = text.toList.all condition := by
  unfold capitalize
  cases text.toList with
  | nil => rfl
  | cons first rest =>
      rw [String.toList_ofList, List.all_append, List.all_flatMap, keeps_upper.all_eq blind]
      simp only [keeps_lower.all_eq blind, List.all_cons]

end Text

end ApiReference

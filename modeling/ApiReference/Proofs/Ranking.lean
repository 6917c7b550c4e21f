import ApiReference.Ranking
import Mathlib.Data.List.Nodup
import Mathlib.Data.Prod.Lex
import Mathlib.Data.String.Basic

namespace ApiReference

/-! Lists in the order of keys: ranked, put into groups one after the other, and sorted. -/

/-- Comparing by a flag first and by a text second. -/
theorem flagged_le_iff {flag other : Bool} {text next : String} :
    (if flag = other then decide (text ≤ next) else other) = true ↔ toLex (flag, text) ≤ toLex (other, next) := by
  rw [Prod.Lex.toLex_le_toLex]
  cases flag <;> cases other <;> simp

/-- Items with distinct keys ascend strictly once they are ranked by their keys. -/
theorem rank_ascends {α κ : Type} [LinearOrder κ] {before : α → α → Bool} {key : α → κ}
    (ordered : ∀ a b, before a b = true ↔ key a ≤ key b) {items : List α} (distinct : (items.map key).Nodup) :
    (rank before items).Pairwise fun a b => key a < key b := by
  have ranked : (rank before items).Pairwise fun a b => before a b = true := by
    apply rank_pairwise
    · intro a b c first second
      exact (ordered a c).mpr (((ordered a b).mp first).trans ((ordered b c).mp second))
    · intro a b
      rw [ordered, ordered]
      exact le_total _ _
  have apart : (rank before items).Pairwise fun a b => key a ≠ key b :=
    List.pairwise_map.mp (((rank_perm before items).map key).nodup_iff.mpr distinct)
  refine ranked.imp₂ ?_ apart
  intro a b first different
  exact lt_of_le_of_ne ((ordered a b).mp first) different

section Groups

variable {α κ : Type} [DecidableEq κ] {key : α → κ} {keys : List κ} {items : List α}

/-- Every item is in the group of exactly one key. -/
theorem flatMap_filter_perm (distinct : keys.Nodup) (covered : ∀ item ∈ items, key item ∈ keys) :
    (keys.flatMap fun wanted => items.filter (key · = wanted)).Perm items := by
  induction keys generalizing items with
  | nil =>
      have empty : items = [] := List.eq_nil_iff_forall_not_mem.mpr fun item member =>
        List.not_mem_nil (covered item member)
      simp [empty]
  | cons first rest ih =>
      obtain ⟨fresh, others⟩ := List.nodup_cons.mp distinct
      -- the later groups do not change when the first one is taken away
      have elsewhere : (rest.flatMap fun wanted => items.filter (key · = wanted)) =
          rest.flatMap fun wanted => (items.filter fun item => !decide (key item = first)).filter (key · = wanted) := by
        apply List.flatMap_congr
        intro wanted member
        have apart : wanted ≠ first := fun same => fresh (same ▸ member)
        rw [List.filter_filter]
        apply List.filter_congr
        intro item _
        by_cases same : key item = wanted
        · simp [same, apart]
        · simp [same]
      have left : ∀ item ∈ items.filter fun item => !decide (key item = first), key item ∈ rest := by
        intro item member
        obtain ⟨listed, apart⟩ := List.mem_filter.mp member
        exact (List.mem_cons.mp (covered item listed)).resolve_left (by simpa using apart)
      rw [List.flatMap_cons, elsewhere]
      exact ((ih others left).append_left _).trans (List.filter_append_perm (fun item => decide (key item = first)) items)

/-- Groups in ascending order of their keys, each in the order given. -/
theorem flatMap_filter_pairwise [LT κ] {before : α → α → Prop} (ascend : keys.Pairwise (· < ·))
    (ranked : items.Pairwise before) :
    (keys.flatMap fun wanted => items.filter (key · = wanted)).Pairwise fun a b =>
      key a < key b ∨ key a = key b ∧ before a b := by
  have within : ∀ wanted item, item ∈ items.filter (key · = wanted) → key item = wanted := by
    intro wanted item listed
    exact of_decide_eq_true (List.mem_filter.mp listed).2
  rw [List.pairwise_flatMap]
  constructor
  · intro wanted _
    refine (ranked.filter _).imp_of_mem ?_
    intro a b first second stands
    exact .inr ⟨(within wanted a first).trans (within wanted b second).symm, stands⟩
  · refine ascend.imp ?_
    intro wanted later before a first b second
    rw [within wanted a first, within later b second]
    exact .inl before

end Groups

/-- A list in strictly ascending order of keys is what sorting by the key gives. -/
theorem eq_mergeSort_of_ascends {α κ : Type} [LinearOrder κ] {key : α → κ} {sorted items : List α}
    (ascends : sorted.Pairwise fun a b => key a < key b) (perm : sorted.Perm items) :
    sorted = items.mergeSort fun a b => key a ≤ key b := by
  have distinct : (sorted.map key).Nodup := List.pairwise_map.mpr (ascends.imp ne_of_lt)
  have again : (items.mergeSort fun a b => key a ≤ key b).Pairwise fun a b => key a ≤ key b := by
    refine (List.pairwise_mergeSort ?_ ?_ items).imp of_decide_eq_true
    · intro a b c
      simpa using le_trans
    · intro a b
      simpa using le_total (key a) (key b)
  have permAgain : sorted.Perm (items.mergeSort fun a b => key a ≤ key b) :=
    perm.trans (List.mergeSort_perm items _).symm
  refine permAgain.eq_of_pairwise ?_ (ascends.imp le_of_lt) again
  intro a b first second before after
  exact List.inj_on_of_nodup_map distinct first (permAgain.mem_iff.mpr second) (le_antisymm before after)

end ApiReference

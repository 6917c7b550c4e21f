namespace ApiReference

/-! Putting lists into order. -/

variable {α : Type}

/-- Puts an item in front of the first one that it may stand before. -/
def rankInto (before : α → α → Bool) (item : α) : List α → List α
  | [] => [item]
  | other :: rest =>
      if before item other then item :: other :: rest else other :: rankInto before item rest

/-- The items in order; those that may stand on either side of each other keep their places. -/
def rank (before : α → α → Bool) : List α → List α
  | [] => []
  | item :: rest => rankInto before item (rank before rest)

theorem rankInto_perm (before : α → α → Bool) (item : α) (items : List α) :
    (rankInto before item items).Perm (item :: items) := by
  induction items with
  | nil => exact .refl _
  | cons other rest ih =>
      unfold rankInto
      split
      · exact .refl _
      · exact (ih.cons other).trans (.swap item other rest)

theorem rank_perm (before : α → α → Bool) (items : List α) : (rank before items).Perm items := by
  induction items with
  | nil => exact .refl _
  | cons item rest ih => exact (rankInto_perm before item _).trans (ih.cons item)

theorem rankInto_pairwise {before : α → α → Bool} {item : α} {items : List α}
    (transitive : ∀ a b c, before a b → before b c → before a c)
    (total : ∀ a b, before a b ∨ before b a)
    (ordered : items.Pairwise fun a b => before a b) :
    (rankInto before item items).Pairwise fun a b => before a b := by
  induction items with
  | nil => simp [rankInto]
  | cons other rest ih =>
      obtain ⟨first, later⟩ := List.pairwise_cons.mp ordered
      unfold rankInto
      split
      · rename_i stands
        refine List.pairwise_cons.mpr ⟨fun next member => ?_, ordered⟩
        rcases List.mem_cons.mp member with same | member
        · exact same ▸ stands
        · exact transitive item other next stands (first next member)
      · rename_i behind
        refine List.pairwise_cons.mpr ⟨fun next member => ?_, ih later⟩
        rcases List.mem_cons.mp ((rankInto_perm before item rest).mem_iff.mp member) with same | member
        · exact same ▸ (total item other).resolve_left behind
        · exact first next member

theorem rank_pairwise {before : α → α → Bool}
    (transitive : ∀ a b c, before a b → before b c → before a c)
    (total : ∀ a b, before a b ∨ before b a) (items : List α) :
    (rank before items).Pairwise fun a b => before a b := by
  induction items with
  | nil => exact .nil
  | cons item rest ih => exact rankInto_pairwise transitive total ih

/-- Without ties the order of the items before ranking does not matter. -/
theorem rank_eq_of_perm {before : α → α → Bool}
    (transitive : ∀ a b c, before a b → before b c → before a c)
    (total : ∀ a b, before a b ∨ before b a) {first second : List α} (perm : first.Perm second)
    (noTies : ∀ a b, a ∈ first → b ∈ first → before a b → before b a → a = b) :
    rank before first = rank before second := by
  have ranked : (rank before first).Perm (rank before second) :=
    (rank_perm before first).trans (perm.trans (rank_perm before second).symm)
  refine List.Perm.eq_of_pairwise ?_ (rank_pairwise transitive total first)
    (rank_pairwise transitive total second) ranked
  intro a b left right
  have right := perm.mem_iff.mpr ((rank_perm before second).mem_iff.mp right)
  exact noTies a b ((rank_perm before first).mem_iff.mp left) right

/-- Ranking looks at nothing but what the comparison looks at. -/
theorem rank_map {β : Type} {before : α → α → Bool} {beforeImage : β → β → Bool} {image : α → β}
    (same : ∀ a b, beforeImage (image a) (image b) = before a b) (items : List α) :
    rank beforeImage (items.map image) = (rank before items).map image := by
  have insertion : ∀ item others,
      rankInto beforeImage (image item) (others.map image) = (rankInto before item others).map image := by
    intro item others
    induction others with
    | nil => rfl
    | cons other rest ih =>
        simp only [List.map_cons, rankInto, same]
        split
        · rfl
        · rw [List.map_cons, ih]
  induction items with
  | nil => rfl
  | cons item rest ih => rw [List.map_cons, rank, rank, ih, insertion]

end ApiReference

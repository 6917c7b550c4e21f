import ApiReference.Proofs.Model.Lineage

namespace ApiReference

/-! The order of the members of a class.

Every member has a position, and the positions are totally ordered. Ranking by name and then
grouping puts the members in ascending order of their positions, which is what one sort by
position gives. -/

/-- Names without a leading underscore stand before the others, and each of the two in the order of
characters. -/
def namePosition (name : String) : Bool ×ₗ String := toLex (decide ("_".toList <+: name.toList), name)

theorem namePosition_injective : Function.Injective namePosition :=
  fun _ _ same => congrArg (fun position => (ofLex position).2) same

namespace Inherited

theorem isPrivateName_eq (name : String) : isPrivateName name = decide ("_".toList <+: name.toList) := by
  rw [Bool.eq_iff_iff, decide_eq_true_iff]
  exact List.isPrefixOf_iff_prefix

theorem nameBefore_iff {a b : String} : nameBefore a b = true ↔ namePosition a ≤ namePosition b := by
  rw [nameBefore, isPrivateName_eq, isPrivateName_eq]
  exact flagged_le_iff

theorem nameBefore_trans {a b c : String} (first : nameBefore a b = true)
    (second : nameBefore b c = true) : nameBefore a c = true := by
  rw [nameBefore_iff] at *
  exact first.trans second

theorem nameBefore_total (a b : String) : nameBefore a b = true ∨ nameBefore b a = true := by
  rw [nameBefore_iff, nameBefore_iff]
  exact le_total _ _

theorem nameBefore_antisymm {a b : String} (first : nameBefore a b = true)
    (second : nameBefore b a = true) : a = b := by
  rw [nameBefore_iff] at first second
  exact namePosition_injective (le_antisymm first second)

/-- No name is used twice, so the ranked names ascend strictly. -/
theorem publicFirst_ascends (known : OrderedMap Inherited) :
    (publicFirst known).Pairwise fun a b => namePosition a.1 < namePosition b.1 := by
  apply rank_ascends
  · intro a b
    exact nameBefore_iff
  · have names := known.distinct.map namePosition_injective
    rwa [List.map_map] at names

end Inherited

namespace ClassMember

def ofInherited (entry : String × Inherited) : ClassMember :=
  ⟨entry.1, entry.2.declaration, entry.2.lineage⟩

/-- Where a member stands: by its group first, and within the group by its name. -/
def position (member : ClassMember) : Nat ×ₗ Bool ×ₗ String :=
  toLex (member.group, namePosition member.name)

theorem group_le_of_position_lt {a b : ClassMember} (before : a.position < b.position) : a.group ≤ b.group := by
  rcases Prod.Lex.toLex_lt_toLex.mp before with earlier | ⟨together, _⟩
  · exact earlier.le
  · exact together.le

/-- Members that ascend by name ascend by position once they are grouped. -/
theorem grouped_ascends {members : List ClassMember}
    (ranked : members.Pairwise fun a b => namePosition a.name < namePosition b.name) :
    (grouped members).Pairwise fun a b => a.position < b.position := by
  rw [grouped_eq_flatMap]
  refine (flatMap_filter_pairwise (by decide) ranked).imp ?_
  intro a b before
  exact Prod.Lex.toLex_lt_toLex.mpr before

end ClassMember

namespace Inherited

theorem isSome_along_iff {name : String} (documented : isDocumented name = true) (chain : List TypeRecord) :
    (along chain name).isSome = true ↔ ∃ declaring ∈ chain, declaring.declares name = true := by
  induction chain with
  | nil => simp [along]
  | cons type rest ih =>
      cases declared : type.attributes.get? name with
      | none =>
          have other := TypeRecord.get?_eq_none_iff.mp declared
          rw [along_cons_of_not_declared declared, ih]
          simp [other]
      | some declaration =>
          have own := TypeRecord.declares_iff.mpr ⟨declaration, declared⟩
          rw [along_cons_of_declared documented declared]
          simp [own]

end Inherited

namespace SymbolTable

theorem classMembers_eq_grouped (table : SymbolTable) (type : TypeRecord) :
    table.classMembers type = ClassMember.grouped
      ((Inherited.publicFirst (Inherited.ofOrder (table.resolutionOrder type))).map ClassMember.ofInherited) := rfl

theorem classMembers_names_nodup (table : SymbolTable) (type : TypeRecord) :
    ((table.classMembers type).map (·.name)).Nodup :=
  (table.names_classMembers_perm type).nodup_iff.mpr (Inherited.ofOrder _).distinct

theorem constructor_mem_iff (table : SymbolTable) (type : TypeRecord) :
    (∃ member ∈ table.classMembers type, member.name = constructorName) ↔
      ∃ declaring ∈ table.resolutionOrder type, declaring.declares constructorName = true := by
  have documented : Inherited.isDocumented constructorName = true := by decide
  simp only [resolutionOrder_eq_reverse_chain, List.mem_reverse, ← Inherited.isSome_along_iff documented,
    Option.isSome_iff_exists, mem_classMembers_iff]
  constructor
  · rintro ⟨member, found, named⟩
    exact ⟨_, named ▸ found⟩
  · rintro ⟨found, known⟩
    exact ⟨ClassMember.ofInherited (constructorName, found), known, rfl⟩

theorem classMembers_ascend (table : SymbolTable) (type : TypeRecord) :
    (table.classMembers type).Pairwise fun a b => a.position < b.position := by
  rw [classMembers_eq_grouped]
  exact ClassMember.grouped_ascends (List.pairwise_map.mpr (Inherited.publicFirst_ascends _))

theorem classMembers_perm_ofOrder (table : SymbolTable) (type : TypeRecord) :
    (table.classMembers type).Perm
      ((Inherited.ofOrder (table.resolutionOrder type)).entries.map ClassMember.ofInherited) := by
  rw [classMembers_eq_grouped]
  exact (ClassMember.grouped_perm _).trans ((rank_perm _ _).map _)

/-- Nothing stands before the group of the constructor, and no other member has its name. -/
theorem constructor_leads_iff (table : SymbolTable) (type : TypeRecord) :
    (∃ member ∈ table.classMembers type, member.name = constructorName) ↔
      ∃ first others, table.classMembers type = first :: others ∧ first.name = constructorName ∧
        ∀ member ∈ others, member.name ≠ constructorName := by
  have ascend := table.classMembers_ascend type
  have distinct := table.classMembers_names_nodup type
  cases members : table.classMembers type with
  | nil => simp
  | cons first others =>
      rw [members] at ascend distinct
      constructor
      · rintro ⟨member, listed, named⟩
        have isConstructor : member.group = 0 := ClassMember.group_eq_zero_iff.mpr (decide_eq_true named)
        have front : first.group = 0 := by
          rcases List.mem_cons.mp listed with rfl | later
          · exact isConstructor
          · have before := ClassMember.group_le_of_position_lt (List.rel_of_pairwise_cons ascend later)
            omega
        have firstNamed : first.name = constructorName := of_decide_eq_true (ClassMember.group_eq_zero_iff.mp front)
        refine ⟨first, others, rfl, firstNamed, ?_⟩
        intro other later otherNamed
        exact (List.nodup_cons.mp distinct).1 (List.mem_map.mpr ⟨other, later, otherNamed.trans firstNamed.symm⟩)
      · rintro ⟨head, tail, split, named, _⟩
        exact ⟨head, split ▸ List.mem_cons_self, named⟩

/-- The members of a class stand in strictly ascending order of their positions and are those that
the fold along the resolution order knows, so that one sort by position gives them. When a class of
that order declares a constructor, and only then, it is the first member, and the only one of its
name. -/
theorem classMembers_eq_sort (table : SymbolTable) (type : TypeRecord) :
    (table.classMembers type).Pairwise (fun a b => a.position < b.position) ∧
      (table.classMembers type).Perm
        ((Inherited.ofOrder (table.resolutionOrder type)).entries.map ClassMember.ofInherited) ∧
      table.classMembers type =
        ((Inherited.ofOrder (table.resolutionOrder type)).entries.map ClassMember.ofInherited).mergeSort
          (fun a b => a.position ≤ b.position) ∧
      ((∃ declaring ∈ table.resolutionOrder type, declaring.declares "__init__" = true) ↔
        ∃ first others, table.classMembers type = first :: others ∧ first.name = "__init__" ∧
          ∀ member ∈ others, member.name ≠ "__init__") := by
  have ascend := table.classMembers_ascend type
  have perm := table.classMembers_perm_ofOrder type
  refine ⟨ascend, perm, eq_mergeSort_of_ascends ascend perm, ?_⟩
  exact (table.constructor_mem_iff type).symm.trans (table.constructor_leads_iff type)

end SymbolTable

end ApiReference

import ApiReference.Model.ClassMember
import ApiReference.Proofs.OrderedMap
import ApiReference.Proofs.Ranking

namespace ApiReference

/-! The members of a class against attribute lookup.

Lookup goes along a chain of classes, the nearest one first, and stops at the first
declaration. The members of a class are what lookup finds along its chain. -/

namespace TypeRecord

def declares (type : TypeRecord) (name : String) : Bool := name ∈ type.attributes.keys

theorem declares_iff {type : TypeRecord} {name : String} :
    type.declares name = true ↔ ∃ declaration, type.attributes.get? name = some declaration := by
  rw [declares, decide_eq_true_iff, ← OrderedMap.isSome_get?_iff, Option.isSome_iff_exists]

theorem get?_eq_none_iff {type : TypeRecord} {name : String} :
    type.attributes.get? name = none ↔ type.declares name = false := by
  rw [← Bool.not_eq_true, declares_iff, Option.eq_none_iff_forall_ne_some, not_exists]

end TypeRecord

namespace SymbolTable

/-- The classes that give `type` its attributes, the nearest one first. The root type and
identities that the table has no class under are left out, and `type` stands for its own identity.
A class for which nothing is left stands alone. -/
def chain (table : SymbolTable) (type : TypeRecord) : List TypeRecord :=
  let known := (type.mro.filter (· ≠ "builtins.object")).filterMap fun id =>
    if id = type.id then some type else table.types.get? id
  if known.isEmpty then [type] else known

theorem resolutionOrder_eq_reverse_chain (table : SymbolTable) (type : TypeRecord) :
    table.resolutionOrder type = (table.chain type).reverse := by
  have known : type.mro.filterMap (table.ancestor? type) =
      (type.mro.filter (· ≠ "builtins.object")).filterMap fun id =>
        if id = type.id then some type else table.types.get? id := by
    rw [List.filterMap_filter]
    congr 1
    funext id
    by_cases root : id = "builtins.object"
    · simp [ancestor?, rootTypeId, root]
    · simp [ancestor?, rootTypeId, root, type?]
  unfold resolutionOrder chain
  rw [← known]
  cases type.mro.filterMap (table.ancestor? type) with
  | nil => rfl
  | cons nearest others => rfl

end SymbolTable

namespace Inherited

theorem isDocumented_iff {name : String} :
    isDocumented name = true ↔ name = "__init__" ∨ ¬ "__".toList <+: name.toList := by
  rw [isDocumented, Bool.or_eq_true, decide_eq_true_iff, Bool.not_eq_true', Or.comm,
    ← Bool.not_eq_true, isReservedName, Text.startsWith, List.isPrefixOf_iff_prefix]
  rfl

/-- What lookup along a chain finds under a name, with all classes that declare it. -/
def along (chain : List TypeRecord) (name : String) : Option Inherited :=
  if isDocumented name then
    match chain.filter (·.declares name) with
    | [] => none
    | nearest :: others =>
        (nearest.attributes.get? name).map fun declaration => ⟨declaration, nearest :: others⟩
  else none

/-- One declaration more in front of what is known of its name. -/
def override (type : TypeRecord) (known : Option Inherited) (declaration : ClassAttribute) : Inherited :=
  ⟨declaration, type :: (known.map (·.lineage)).getD []⟩

theorem get?_declare (type : TypeRecord) (known : OrderedMap Inherited)
    (entry : String × ClassAttribute) (name : String) :
    (declare type known entry).get? name =
      if name = entry.1 ∧ isDocumented name = true then some (override type (known.get? name) entry.2)
      else known.get? name := by
  unfold declare
  by_cases documented : isDocumented entry.1 = true
  · rw [if_pos documented, OrderedMap.get?_upsert]
    by_cases same : name = entry.1
    · subst same
      simp [documented, override]
    · simp [same]
  · rw [if_neg documented, if_neg]
    rintro ⟨rfl, shown⟩
    exact documented shown

/-- Going through the declarations of one class changes what is known of exactly the
documented names among them. -/
theorem get?_foldl_declare (type : TypeRecord) {entries : List (String × ClassAttribute)}
    (distinct : (entries.map Prod.fst).Nodup) (known : OrderedMap Inherited) (name : String) :
    (entries.foldl (declare type) known).get? name =
      if isDocumented name then
        match entries.lookup name with
        | some declaration => some (override type (known.get? name) declaration)
        | none => known.get? name
      else known.get? name := by
  induction entries generalizing known with
  | nil => simp
  | cons entry rest ih =>
      obtain ⟨key, declaration⟩ := entry
      obtain ⟨fresh, others⟩ := List.nodup_cons.mp distinct
      rw [List.foldl_cons, ih others, get?_declare]
      by_cases documented : isDocumented name = true
      · by_cases same : name = key
        · subst same
          have once : rest.lookup name = none := by
            rw [List.lookup_eq_none_iff]
            intro other member
            have different : name ≠ other.1 :=
              fun equal => fresh (equal ▸ List.mem_map.mpr ⟨other, member, rfl⟩)
            simpa using different
          simp [documented, once]
        · simp [documented, same, OrderedMap.lookup_cons_eq_ite]
      · simp [documented]

theorem along_cons_of_declared {type : TypeRecord} {name : String} {declaration : ClassAttribute}
    (documented : isDocumented name = true)
    (declared : type.attributes.get? name = some declaration) (rest : List TypeRecord) :
    along (type :: rest) name = some ⟨declaration, type :: rest.filter (·.declares name)⟩ := by
  have own := TypeRecord.declares_iff.mpr ⟨declaration, declared⟩
  simp [along, documented, own, declared]

theorem along_cons_of_not_declared {type : TypeRecord} {name : String}
    (undeclared : type.attributes.get? name = none) (rest : List TypeRecord) :
    along (type :: rest) name = along rest name := by
  have other := TypeRecord.get?_eq_none_iff.mp undeclared
  simp [along, other]

/-- The classes in a lineage are all those of the chain that declare the name. -/
theorem lineage_along {name : String} (documented : isDocumented name = true)
    (chain : List TypeRecord) :
    ((along chain name).map (·.lineage)).getD [] = chain.filter (·.declares name) := by
  induction chain with
  | nil => simp [along]
  | cons type rest ih =>
      cases declared : type.attributes.get? name with
      | none =>
          have other := TypeRecord.get?_eq_none_iff.mp declared
          rw [along_cons_of_not_declared declared, ih]
          simp [other]
      | some declaration =>
          have own := TypeRecord.declares_iff.mpr ⟨declaration, declared⟩
          rw [along_cons_of_declared documented declared]
          simp [own]

/-- The fold from the most basic class on finds what lookup from the nearest class on finds. -/
theorem get?_ofOrder_reverse (chain : List TypeRecord) (name : String) :
    (ofOrder chain.reverse).get? name = along chain name := by
  unfold ofOrder
  rw [List.foldl_reverse]
  induction chain with
  | nil => simp [along]
  | cons type rest ih =>
      rw [List.foldr_cons, get?_foldl_declare type type.attributes.distinct, ih]
      change (if isDocumented name = true then match type.attributes.get? name with
        | some declaration => some (override type (along rest name) declaration)
        | none => along rest name else along rest name) = _
      by_cases documented : isDocumented name = true
      · rw [if_pos documented]
        cases declared : type.attributes.get? name with
        | none => rw [along_cons_of_not_declared declared]
        | some declaration =>
            rw [along_cons_of_declared documented declared]
            simp only [override, lineage_along documented]
      · simp [along, documented]

theorem along_eq_some_iff {chain : List TypeRecord} {name : String} {found : Inherited} :
    along chain name = some found ↔
      isDocumented name = true ∧
        (∃ nearest, chain.find? (·.declares name) = some nearest ∧
          nearest.attributes.get? name = some found.declaration) ∧
        found.lineage = chain.filter (·.declares name) := by
  by_cases documented : isDocumented name = true
  · induction chain with
    | nil => simp [along]
    | cons type rest ih =>
        cases declared : type.attributes.get? name with
        | none =>
            have other := TypeRecord.get?_eq_none_iff.mp declared
            rw [along_cons_of_not_declared declared, ih]
            simp [other]
        | some declaration =>
            have own := TypeRecord.declares_iff.mpr ⟨declaration, declared⟩
            obtain ⟨seen, lineage⟩ := found
            rw [along_cons_of_declared documented declared]
            simp [own, documented, declared, eq_comm]
  · simp [along, documented]

end Inherited

namespace ClassMember

/-- The constructor is a group of its own, whatever its kind. -/
def group (member : ClassMember) : Nat :=
  if member.isConstructor then 0
  else match member.kind with
    | .field => 1
    | .property => 2
    | .method => 3

theorem group_eq_zero_iff {member : ClassMember} : member.group = 0 ↔ member.isConstructor = true := by
  unfold group
  cases member.isConstructor <;> cases member.kind <;> simp

/-- Grouping goes through the groups one by one. -/
theorem grouped_eq_flatMap (members : List ClassMember) :
    grouped members = [0, 1, 2, 3].flatMap fun place => members.filter (·.group = place) := by
  have constructors : members.filter (·.isConstructor) = members.filter (·.group = 0) := by
    apply List.filter_congr
    intro member _
    rw [Bool.eq_iff_iff, decide_eq_true_iff, group_eq_zero_iff]
  have others : ∀ kind : AttributeKind, ∀ place : Nat,
      (∀ member : ClassMember, member.group = place ↔ member.kind = kind ∧ member.isConstructor = false) →
      (members.filter fun member => !member.isConstructor).filter (·.kind = kind) =
        members.filter (·.group = place) := by
    intro kind place placed
    rw [List.filter_filter]
    apply List.filter_congr
    intro member _
    rw [Bool.eq_iff_iff, Bool.and_eq_true, decide_eq_true_iff, decide_eq_true_iff, Bool.not_eq_true', placed]
  have placed : ∀ member : ClassMember, (member.group = 1 ↔ member.kind = .field ∧ member.isConstructor = false) ∧
      (member.group = 2 ↔ member.kind = .property ∧ member.isConstructor = false) ∧
      (member.group = 3 ↔ member.kind = .method ∧ member.isConstructor = false) := by
    intro member
    unfold group
    cases member.isConstructor <;> cases member.kind <;> simp
  unfold grouped
  simp only [constructors, others .field 1 fun member => (placed member).1,
    others .property 2 fun member => (placed member).2.1, others .method 3 fun member => (placed member).2.2,
    List.flatMap_cons, List.flatMap_nil, List.append_nil, List.append_assoc]

theorem group_mem (member : ClassMember) : member.group ∈ [0, 1, 2, 3] := by
  unfold group
  cases member.isConstructor <;> cases member.kind <;> simp

theorem grouped_perm (members : List ClassMember) : (grouped members).Perm members := by
  rw [grouped_eq_flatMap]
  exact flatMap_filter_perm (by decide) fun member _ => member.group_mem

end ClassMember

namespace SymbolTable

theorem classMembers_perm (table : SymbolTable) (type : TypeRecord) :
    (table.classMembers type).Perm
      ((Inherited.ofOrder (table.chain type).reverse).entries.map fun (name, inherited) =>
        ⟨name, inherited.declaration, inherited.lineage⟩) := by
  unfold classMembers
  rw [resolutionOrder_eq_reverse_chain]
  exact (ClassMember.grouped_perm _).trans ((rank_perm _ _).map _)

theorem names_classMembers_perm (table : SymbolTable) (type : TypeRecord) :
    ((table.classMembers type).map (·.name)).Perm
      (Inherited.ofOrder (table.chain type).reverse).keys := by
  simpa [OrderedMap.keys, Function.comp_def] using (table.classMembers_perm type).map (·.name)

theorem mem_classMembers_iff {table : SymbolTable} {type : TypeRecord} {member : ClassMember} :
    member ∈ table.classMembers type ↔
      Inherited.along (table.chain type) member.name = some ⟨member.declaration, member.lineage⟩ := by
  rw [(table.classMembers_perm type).mem_iff, ← Inherited.get?_ofOrder_reverse,
    OrderedMap.get?_eq_some_iff, List.mem_map]
  constructor
  · rintro ⟨⟨name, inherited⟩, held, rfl⟩
    exact held
  · intro held
    exact ⟨_, held, rfl⟩

/-- The members of a class are what attribute lookup finds along its chain: no name twice,
exactly the documented names that a class of the chain declares, each with its nearest
declaration and with all declaring classes in the order of the chain. -/
theorem classMembers_eq_lookup (table : SymbolTable) (type : TypeRecord) :
    ((table.classMembers type).map (·.name)).Nodup ∧
      (∀ name, name ∈ (table.classMembers type).map (·.name) ↔
        (name = "__init__" ∨ ¬ "__".toList <+: name.toList) ∧
          ∃ declaring ∈ table.chain type, declaring.declares name = true) ∧
      ∀ member ∈ table.classMembers type,
        member.lineage = (table.chain type).filter (·.declares member.name) ∧
          ∃ nearest, (table.chain type).find? (·.declares member.name) = some nearest ∧
            nearest.attributes.get? member.name = some member.declaration ∧
            member.definedIn? = some nearest := by
  refine ⟨?_, ?_, ?_⟩
  · exact (table.names_classMembers_perm type).nodup_iff.mpr (Inherited.ofOrder _).distinct
  · intro name
    rw [(table.names_classMembers_perm type).mem_iff, ← OrderedMap.isSome_get?_iff,
      Inherited.get?_ofOrder_reverse, ← Inherited.isDocumented_iff, Option.isSome_iff_exists]
    constructor
    · rintro ⟨found, known⟩
      obtain ⟨shown, ⟨nearest, first, _⟩, _⟩ := Inherited.along_eq_some_iff.mp known
      have declares := List.find?_some first
      exact ⟨shown, nearest, List.mem_of_find?_eq_some first, declares⟩
    · rintro ⟨shown, declaring, member, declares⟩
      have present : ((table.chain type).find? (·.declares name)).isSome = true :=
        List.find?_isSome.mpr ⟨declaring, member, declares⟩
      obtain ⟨nearest, first⟩ := Option.isSome_iff_exists.mp present
      have declaresToo := List.find?_some first
      obtain ⟨declaration, held⟩ := TypeRecord.declares_iff.mp declaresToo
      exact ⟨⟨declaration, (table.chain type).filter (·.declares name)⟩,
        Inherited.along_eq_some_iff.mpr ⟨shown, ⟨nearest, first, held⟩, rfl⟩⟩
  · intro member listed
    obtain ⟨_, ⟨nearest, first, held⟩, lineage⟩ :=
      Inherited.along_eq_some_iff.mp (mem_classMembers_iff.mp listed)
    have same : member.lineage = (table.chain type).filter (·.declares member.name) := lineage
    refine ⟨same, nearest, first, held, ?_⟩
    rw [ClassMember.definedIn?, same, List.head?_filter, first]

def animal : TypeRecord where
  name := "Animal"
  moduleName := "zoo"
  attributes := ⟨[("name", .ofField "''"), ("speak", .ofMethod "(self)" .perInstance),
    ("__repr__", .ofMethod "(self)" .perInstance)], by decide⟩

def bird : TypeRecord where
  name := "Bird"
  moduleName := "zoo"
  attributes := ⟨[("speak", .ofMethod "(self, tune)" .perInstance)], by decide⟩

/-- A class of which one relative is not in the table. -/
def parrot : TypeRecord where
  name := "Parrot"
  moduleName := "zoo"
  mro := ["zoo.Parrot", "zoo.Talker", "zoo.Bird", "zoo.Animal", "builtins.object"]
  attributes := ⟨[("colour", .ofField "'green'")], by decide⟩

def aviary : SymbolTable where
  types := ⟨[("zoo.Animal", animal), ("zoo.Bird", bird)], by decide⟩

/-- The nearest declaration is inherited, and with it the one that it overrides. -/
theorem parrot_inherits_nearest :
    aviary.chain parrot = [parrot, bird, animal] ∧
      (∃ member ∈ aviary.classMembers parrot, member.name = "speak" ∧
        member.declaration = .ofMethod "(self, tune)" .perInstance ∧ member.lineage = [bird, animal] ∧
        member.definedIn? = some bird) ∧
      "__repr__" ∉ (aviary.classMembers parrot).map (·.name) := by
  obtain ⟨_, named, looked⟩ := classMembers_eq_lookup aviary parrot
  have chained : aviary.chain parrot = [parrot, bird, animal] := by decide +kernel
  rw [chained] at named looked
  refine ⟨chained, ?_, ?_⟩
  · have listed := (named "speak").mpr ⟨.inr (by decide), bird, by simp, by decide⟩
    obtain ⟨member, inside, same⟩ := List.mem_map.mp listed
    obtain ⟨lineage, nearest, first, held, defined⟩ := looked member inside
    rw [same] at lineage first held
    have found : [parrot, bird, animal].find? (·.declares "speak") = some bird := by decide +kernel
    obtain rfl : bird = nearest := Option.some.inj (found.symm.trans first)
    have declared : bird.attributes.get? "speak" = some (.ofMethod "(self, tune)" .perInstance) := by decide
    exact ⟨member, inside, same, Option.some.inj (held.symm.trans declared), lineage.trans (by decide +kernel), defined⟩
  · intro listed
    rcases ((named "__repr__").mp listed).1 with constructor | unreserved
    · exact absurd constructor (by decide)
    · exact unreserved (by decide)

end SymbolTable

end ApiReference

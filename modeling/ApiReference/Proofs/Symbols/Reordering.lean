import ApiReference.Proofs.Model.Lineage
import ApiReference.Proofs.Model.Inspection
import Mathlib.Data.List.Forall2

namespace ApiReference

/-! Symbol tables that hold the same in another order.

Reordered tables select the same attributes of their modules, and find reordered classes
along every chain. -/

/-- The same class with its declarations in another order. -/
structure TypeRecord.Reordered (first second : TypeRecord) : Prop where
  name : first.name = second.name
  moduleName : first.moduleName = second.moduleName
  doc : first.doc = second.doc
  bases : first.bases = second.bases
  mro : first.mro = second.mro
  form : first.form = second.form
  attributes : first.attributes.entries.Perm second.attributes.entries

/-- The same module with its attributes in another order, and with the names that it exports
in another order or repeated. -/
structure ModuleRecord.Reordered (first second : ModuleRecord) : Prop where
  name : first.name = second.name
  doc : first.doc = second.doc
  exports : Option.Rel (fun names others => ∀ name, name ∈ names ↔ name ∈ others)
    first.exports second.exports
  attributes : first.attributes.entries.Perm second.attributes.entries

/-- The same modules and classes: the modules in the same order, each of them reordered, and
the classes in any order, each of them reordered. -/
structure SymbolTable.Reordered (first second : SymbolTable) : Prop where
  modules : List.Forall₂ ModuleRecord.Reordered first.modules second.modules
  types : ∃ entries : List (String × TypeRecord), first.types.entries.Perm entries ∧
    List.Forall₂ (fun left right => left.1 = right.1 ∧ left.2.Reordered right.2) entries
      second.types.entries

namespace TypeRecord.Reordered

variable {first second : TypeRecord}

theorem id (reordered : first.Reordered second) : first.id = second.id := by
  simp only [TypeRecord.id, reordered.name, reordered.moduleName]

theorem get? (reordered : first.Reordered second) (name : String) :
    first.attributes.get? name = second.attributes.get? name :=
  OrderedMap.get?_eq_of_perm reordered.attributes name

theorem declares (reordered : first.Reordered second) (name : String) :
    first.declares name = second.declares name := by
  rw [Bool.eq_iff_iff, declares_iff, declares_iff, reordered.get?]

end TypeRecord.Reordered

namespace ModuleRecord.Reordered

variable {first second : ModuleRecord}

theorem documents (reordered : first.Reordered second) (name : String) (attr : AttributeRecord) :
    first.documents name attr = second.documents name attr := by
  have exports := reordered.exports
  unfold ModuleRecord.documents
  rw [reordered.name]
  generalize first.exports = names at exports
  generalize second.exports = others at exports
  cases exports with
  | none => rfl
  | some same =>
      rw [Bool.eq_iff_iff, List.contains_iff_mem, List.contains_iff_mem]
      exact same name

/-- Attributes have distinct names, so that sorting by name leaves no ties. -/
theorem documented (reordered : first.Reordered second) : first.documented = second.documented := by
  have selected : ∀ entry : String × AttributeRecord,
      first.documents entry.1 entry.2 = second.documents entry.1 entry.2 :=
    fun entry => reordered.documents entry.1 entry.2
  have perm : (first.attributes.entries.filter fun entry => first.documents entry.1 entry.2).Perm
      (second.attributes.entries.filter fun entry => second.documents entry.1 entry.2) := by
    simp only [selected]
    exact reordered.attributes.filter _
  unfold ModuleRecord.documented
  refine rank_eq_of_perm ?_ ?_ perm ?_
  · intro a b c before after
    simp only [decide_eq_true_eq] at before after ⊢
    exact String.le_trans before after
  · intro a b
    simpa using String.le_total a.1 b.1
  · intro a b left right before after
    simp only [decide_eq_true_eq] at before after
    exact List.inj_on_of_nodup_map first.attributes.distinct (List.mem_filter.mp left).1
      (List.mem_filter.mp right).1 (String.le_antisymm before after)

end ModuleRecord.Reordered

namespace SymbolTable.Reordered

variable {first second : SymbolTable}

theorem lookup_forall₂ {left right : List (String × TypeRecord)}
    (related : List.Forall₂ (fun left right => left.1 = right.1 ∧ left.2.Reordered right.2) left right)
    (id : String) : Option.Rel TypeRecord.Reordered (left.lookup id) (right.lookup id) := by
  induction related with
  | nil => exact .none
  | @cons leftEntry rightEntry leftRest rightRest entries _ ih =>
      obtain ⟨key, type⟩ := leftEntry
      obtain ⟨otherKey, other⟩ := rightEntry
      obtain ⟨rfl, reordered⟩ := entries
      rw [OrderedMap.lookup_cons_eq_ite, OrderedMap.lookup_cons_eq_ite]
      split
      · exact .some reordered
      · exact ih

theorem type? (reordered : first.Reordered second) (id : String) :
    Option.Rel TypeRecord.Reordered (first.type? id) (second.type? id) := by
  obtain ⟨entries, perm, related⟩ := reordered.types
  have distinct : (entries.map Prod.fst).Nodup := (perm.map Prod.fst).nodup first.types.distinct
  have same : first.type? id = entries.lookup id := by
    apply Option.ext
    intro type
    rw [SymbolTable.type?, OrderedMap.get?_eq_some_iff, perm.mem_iff,
      OrderedMap.lookup_eq_some_iff_mem distinct]
  rw [same]
  exact lookup_forall₂ related id

theorem filterMap_forall₂ {left right : String → Option TypeRecord}
    (related : ∀ id, Option.Rel TypeRecord.Reordered (left id) (right id)) (ids : List String) :
    List.Forall₂ TypeRecord.Reordered (ids.filterMap left) (ids.filterMap right) := by
  induction ids with
  | nil => exact .nil
  | cons id rest ih =>
      have here := related id
      rw [List.filterMap_cons, List.filterMap_cons]
      generalize left id = type at here
      generalize right id = other at here
      cases here with
      | none => exact ih
      | some reordered => exact .cons reordered ih

theorem chain (reordered : first.Reordered second) {type other : TypeRecord}
    (typeReordered : type.Reordered other) :
    List.Forall₂ TypeRecord.Reordered (first.chain type) (second.chain other) := by
  have found : ∀ id, Option.Rel TypeRecord.Reordered
      (if id = type.id then some type else first.types.get? id)
      (if id = other.id then some other else second.types.get? id) := by
    intro id
    rw [typeReordered.id]
    split
    · exact .some typeReordered
    · exact reordered.type? id
  have known := filterMap_forall₂ found (type.mro.filter (· ≠ "builtins.object"))
  unfold SymbolTable.chain
  rw [← typeReordered.mro]
  generalize (type.mro.filter (· ≠ "builtins.object")).filterMap
    (fun id => if id = type.id then some type else first.types.get? id) = left at known
  generalize (type.mro.filter (· ≠ "builtins.object")).filterMap
    (fun id => if id = other.id then some other else second.types.get? id) = right at known
  cases known with
  | nil => exact .cons typeReordered .nil
  | cons nearest others => exact .cons nearest others

end SymbolTable.Reordered

end ApiReference

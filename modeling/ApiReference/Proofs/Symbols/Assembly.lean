import ApiReference.Proofs.OrderedMap
import ApiReference.Symbols.Resolution
import Mathlib.Data.List.Induction

namespace ApiReference.SymbolTable

/-! Tables that are put together record by record. Every class stands under its own identity
there, so that looking up each identity of an order finds what the order resolves to. -/

/-- One step in putting a table together. -/
inductive Addition where
  | module (record : ModuleRecord)
  | type (record : TypeRecord)

namespace Addition

def apply (table : SymbolTable) : Addition → SymbolTable
  | .module record => table.addModule record
  | .type record => table.addType record

def type? : Addition → Option TypeRecord
  | .module _ => none
  | .type record => some record

end Addition

def assemble (additions : List Addition) : SymbolTable :=
  additions.foldl Addition.apply {}

/-- The order of a class when each of its identities but the root type is looked up. -/
def lookupOrder (table : SymbolTable) (type : TypeRecord) : List TypeRecord :=
  match (type.mro.filter (· ≠ rootTypeId)).filterMap table.type? with
  | [] => [type]
  | found => found.reverse

/-- What the classes of a table are after the given ones were added in turn: an identity has
the place of its first class and the record of its last one. -/
structure Holds (table : SymbolTable) (added : List TypeRecord) : Prop where
  keys : table.types.keys = (added.map TypeRecord.id).eraseDups
  records : ∀ id, table.type? id = added.reverse.find? (·.id = id)

namespace Holds

variable {table : SymbolTable} {added : List TypeRecord}

theorem empty : Holds {} [] where
  keys := rfl
  records _ := rfl

theorem addModule (holds : Holds table added) (record : ModuleRecord) :
    Holds (table.addModule record) added :=
  ⟨holds.keys, holds.records⟩

theorem addType (holds : Holds table added) (type : TypeRecord) :
    Holds (table.addType type) (added ++ [type]) where
  keys := by
    calc (table.addType type).types.keys
        = if type.id ∈ table.types.keys then table.types.keys else table.types.keys ++ [type.id] :=
          OrderedMap.keys_upsertIn type.id _ table.types.entries
      _ = ((added ++ [type]).map TypeRecord.id).eraseDups := by
          rw [List.map_append, List.map_singleton, OrderedMap.eraseDups_concat]
          simp only [holds.keys, List.mem_eraseDups]
  records id := by
    have inserted : (table.addType type).type? id = if id = type.id then some type else table.type? id :=
      OrderedMap.get?_upsert table.types type.id _ id
    rw [inserted, List.reverse_append, List.reverse_singleton, List.singleton_append, List.find?_cons, holds.records]
    by_cases own : id = type.id
    · simp [own]
    · simp [own, Ne.symm own]

theorem apply (holds : Holds table added) (addition : Addition) :
    Holds (addition.apply table) (added ++ addition.type?.toList) := by
  cases addition with
  | module record =>
      change Holds (table.addModule record) (added ++ [])
      rw [List.append_nil]
      exact holds.addModule record
  | type record => exact holds.addType record

theorem id_eq_of_mem (holds : Holds table added) {key : String} {type : TypeRecord}
    (stored : (key, type) ∈ table.types.entries) : type.id = key := by
  have found : table.type? key = some type := OrderedMap.get?_eq_some_iff.mpr stored
  rw [holds.records] at found
  simpa using List.find?_some found

end Holds

theorem holds_assemble (additions : List Addition) :
    Holds (assemble additions) (additions.filterMap Addition.type?) := by
  -- the last step is taken off, so that the earlier ones have already left a table
  induction additions using List.reverseRecOn with
  | nil => exact .empty
  | append_singleton earlier last ih =>
      have stepped := ih.apply last
      rw [assemble, List.foldl_concat, List.filterMap_append]
      cases last with
      | module record => exact stepped
      | type record => exact stepped

/-- Looking a class up under its own identity makes no difference where that finds the class. -/
theorem resolutionOrder_eq_lookupOrder {table : SymbolTable} {type : TypeRecord}
    (own : table.type? type.id = some type) : table.resolutionOrder type = table.lookupOrder type := by
  have ancestors : type.mro.filterMap (table.ancestor? type) =
      (type.mro.filter (· ≠ rootTypeId)).filterMap table.type? := by
    rw [List.filterMap_filter]
    refine List.filterMap_congr fun id _ => ?_
    by_cases root : id = rootTypeId
    · simp [ancestor?, root]
    · by_cases self : id = type.id
      · simp [ancestor?, self ▸ root, self, own]
      · simp [ancestor?, root, self]
  cases found : (type.mro.filter (· ≠ rootTypeId)).filterMap table.type? with
  | nil => simp only [resolutionOrder, lookupOrder, ancestors, found]
  | cons first more => simp only [resolutionOrder, lookupOrder, ancestors, found]

/-- In a table that was put together step by step the classes stand under their identities,
in the order in which these first came and with the record that came last; the order of each
class is then found by plain lookups. -/
theorem assemble_keyed (additions : List Addition) :
    (assemble additions).types.keys.Nodup ∧
      (∀ key type, (key, type) ∈ (assemble additions).types.entries → type.id = key) ∧
      (assemble additions).types.keys =
        ((additions.filterMap Addition.type?).map TypeRecord.id).eraseDups ∧
      (∀ id, (assemble additions).type? id =
        (additions.filterMap Addition.type?).reverse.find? (·.id = id)) ∧
      ∀ key type, (key, type) ∈ (assemble additions).types.entries →
        (assemble additions).resolutionOrder type = (assemble additions).lookupOrder type := by
  have holds := holds_assemble additions
  refine ⟨(assemble additions).types.distinct, fun key type => holds.id_eq_of_mem, holds.keys, holds.records, ?_⟩
  intro key type stored
  have own := OrderedMap.get?_eq_some_iff.mpr stored
  rw [← holds.id_eq_of_mem stored] at own
  exact resolutionOrder_eq_lookupOrder own

/-- A class with the identity of another one, whose name has a dot. -/
def coreShape : TypeRecord :=
  { name := "Shape", moduleName := "pkg.core", mro := ["pkg.core.Shape", "pkg.core.Form", rootTypeId] }

def shapesTwice : List Addition :=
  [.type { name := "core.Shape", moduleName := "pkg" }, .type (.ofName "pkg.core" "Form"),
   .module { name := "pkg.core" }, .type coreShape]

theorem shapesTwice_keyed :
    ("pkg.core.Shape", coreShape) ∈ (assemble shapesTwice).types.entries ∧
      (assemble shapesTwice).types.keys = ["pkg.core.Shape", "pkg.core.Form"] ∧
      (assemble shapesTwice).resolutionOrder coreShape = (assemble shapesTwice).lookupOrder coreShape := by
  have stored : ("pkg.core.Shape", coreShape) ∈ (assemble shapesTwice).types.entries := by decide
  obtain ⟨_, _, keys, _, orders⟩ := assemble_keyed shapesTwice
  exact ⟨stored, keys.trans (by decide), orders _ _ stored⟩

end ApiReference.SymbolTable

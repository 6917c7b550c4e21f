import ApiReference.Proofs.Model.MemberOrder
import ApiReference.Proofs.Model.Outline
import ApiReference.Proofs.Symbols.Reordering
import Mathlib.Tactic.Tauto

namespace ApiReference

/-! The documentation of a symbol table does not depend on the order in which the table
holds its entries. -/

namespace TypeRecord.Reordered

variable {first second : TypeRecord}

theorem outline (reordered : first.Reordered second) : first.outline = second.outline := by
  obtain ⟨name, moduleName, doc, bases, mro, attributes, form⟩ := first
  obtain ⟨otherName, otherModuleName, otherDoc, otherBases, otherMro, others, otherForm⟩ := second
  obtain ⟨rfl, rfl, rfl, rfl, rfl, rfl, _⟩ := reordered
  rfl

theorem filter_outline {left right : List TypeRecord}
    (related : List.Forall₂ TypeRecord.Reordered left right) (name : String) :
    (left.filter (·.declares name)).map (·.outline) =
      (right.filter (·.declares name)).map (·.outline) := by
  induction related with
  | nil => rfl
  | @cons type other rest others reordered _ ih =>
      rw [List.filter_cons, List.filter_cons, reordered.declares]
      split
      · rw [List.map_cons, List.map_cons, reordered.outline, ih]
      · exact ih

end TypeRecord.Reordered

namespace Inherited

def outline (inherited : Inherited) : Inherited :=
  { inherited with lineage := inherited.lineage.map (·.outline) }

/-- Lookup along reordered chains finds the same declaration and the same lineage. -/
theorem along_outline {left right : List TypeRecord}
    (related : List.Forall₂ TypeRecord.Reordered left right) (name : String) :
    (along left name).map outline = (along right name).map outline := by
  by_cases documented : isDocumented name = true
  · induction related with
    | nil => rfl
    | @cons type other rest others reordered following ih =>
        cases declared : other.attributes.get? name with
        | none =>
            rw [along_cons_of_not_declared declared,
              along_cons_of_not_declared ((reordered.get? name).trans declared), ih]
        | some declaration =>
            rw [along_cons_of_declared documented declared,
              along_cons_of_declared documented ((reordered.get? name).trans declared)]
            simp only [Option.map_some, outline, List.map_cons, reordered.outline,
              TypeRecord.Reordered.filter_outline following]
  · simp [along, documented]

/-- Names are distinct and strictly ordered, so that what is known of them decides the list. -/
theorem publicFirst_outline {left right : OrderedMap Inherited}
    (same : ∀ name, (left.get? name).map outline = (right.get? name).map outline) :
    (publicFirst left).map (Prod.map id outline) = (publicFirst right).map (Prod.map id outline) := by
  have distinct : ∀ known : OrderedMap Inherited,
      ((known.entries.map (Prod.map id outline)).map Prod.fst).Nodup := by
    intro known
    simpa [Function.comp_def] using known.distinct
  have perm : (left.entries.map (Prod.map id outline)).Perm (right.entries.map (Prod.map id outline)) := by
    refine OrderedMap.perm_of_lookup_eq (distinct left) (distinct right) fun name => ?_
    rw [OrderedMap.lookup_map_snd, OrderedMap.lookup_map_snd]
    exact same name
  have ranked : ∀ known : OrderedMap Inherited, (publicFirst known).map (Prod.map id outline) =
      rank (fun a b => nameBefore a.1 b.1) (known.entries.map (Prod.map id outline)) := by
    intro known
    symm
    apply rank_map
    intro a b
    rfl
  rw [ranked, ranked]
  refine rank_eq_of_perm ?_ ?_ perm ?_
  · intro a b c before after
    exact nameBefore_trans before after
  · intro a b
    exact nameBefore_total a.1 b.1
  · intro a b leftMember rightMember before after
    exact List.inj_on_of_nodup_map (distinct left) leftMember rightMember
      (nameBefore_antisymm before after)

end Inherited

namespace ClassMember

theorem grouped_outline (members : List ClassMember) :
    grouped (members.map (·.outline)) = (grouped members).map (·.outline) := by
  simp only [grouped, List.map_append]
  rw [filter_map_outline outline (fun _ => rfl), filter_map_outline outline (fun _ => rfl),
    filter_map_outline outline (fun _ => rfl), filter_map_outline outline (fun _ => rfl),
    filter_map_outline outline (fun _ => rfl)]

end ClassMember

namespace SymbolTable.Reordered

variable {first second : SymbolTable}

theorem classMembers_outline (reordered : first.Reordered second) {type other : TypeRecord}
    (typeReordered : type.Reordered other) :
    (first.classMembers type).map (·.outline) = (second.classMembers other).map (·.outline) := by
  have same : ∀ name, ((Inherited.ofOrder (first.chain type).reverse).get? name).map Inherited.outline =
      ((Inherited.ofOrder (second.chain other).reverse).get? name).map Inherited.outline := by
    intro name
    rw [Inherited.get?_ofOrder_reverse, Inherited.get?_ofOrder_reverse,
      Inherited.along_outline (reordered.chain typeReordered)]
  have members : ∀ known : OrderedMap Inherited,
      ((Inherited.publicFirst known).map ClassMember.ofInherited).map (·.outline) =
        ((Inherited.publicFirst known).map (Prod.map id Inherited.outline)).map ClassMember.ofInherited := by
    intro known
    rw [List.map_map, List.map_map]
    rfl
  change (ClassMember.grouped ((Inherited.publicFirst (Inherited.ofOrder
      (first.resolutionOrder type))).map ClassMember.ofInherited)).map (·.outline) =
    (ClassMember.grouped ((Inherited.publicFirst (Inherited.ofOrder
      (second.resolutionOrder other))).map ClassMember.ofInherited)).map (·.outline)
  rw [resolutionOrder_eq_reverse_chain, resolutionOrder_eq_reverse_chain,
    ← ClassMember.grouped_outline, ← ClassMember.grouped_outline, members, members,
    Inherited.publicFirst_outline same]

theorem declaredBases_outline (reordered : first.Reordered second) {type other : TypeRecord}
    (typeReordered : type.Reordered other) :
    (first.declaredBases type).map (·.outline) = (second.declaredBases other).map (·.outline) := by
  unfold declaredBases
  rw [typeReordered.bases, List.map_map, List.map_map]
  apply List.map_congr_left
  intro id _
  have found := reordered.type? id
  simp only [Function.comp_apply, Base.outline]
  generalize first.type? id = left at found
  generalize second.type? id = right at found
  cases found with
  | none => rfl
  | some same => simp only [Option.map_some, same.outline]

theorem classModelOf_outline (reordered : first.Reordered second) {type other : TypeRecord}
    (typeReordered : type.Reordered other) :
    (Inspection.classModelOf first type).outline = (Inspection.classModelOf second other).outline := by
  simp only [Inspection.classModelOf, ClassModel.outline, Option.map_some, typeReordered.outline,
    reordered.declaredBases_outline typeReordered, typeReordered.form]
  split
  · rfl
  · rw [reordered.classMembers_outline typeReordered]

theorem memberOf_outline (reordered : first.Reordered second) {record other : ModuleRecord}
    (recordReordered : record.Reordered other) (entry : String × AttributeRecord) :
    (Inspection.memberOf first record entry).outline =
      (Inspection.memberOf second other entry).outline := by
  obtain ⟨name, attr⟩ := entry
  have ids : Inspection.classId record name attr = Inspection.classId other name attr := by
    simp only [Inspection.classId, recordReordered.name]
  have found := reordered.type? (Inspection.classId other name attr)
  simp only [Inspection.memberOf, Inspection.classOf?, ids]
  generalize first.type? (Inspection.classId other name attr) = left at found
  generalize second.type? (Inspection.classId other name attr) = right at found
  cases attr.kind with
  | function => rfl
  | data => rfl
  | classType =>
      cases found with
      | none => rfl
      | some same =>
          simp only [Member.outline, MemberKind.outline, Option.map_some, Option.getD_some,
            reordered.classModelOf_outline same, Option.bind_some, same.doc,
            Inspection.classSignature?, Option.bind_eq_bind, same.get?]

theorem moduleOf_outline (reordered : first.Reordered second) {record other : ModuleRecord}
    (recordReordered : record.Reordered other) :
    (Inspection.moduleOf first record).outline = (Inspection.moduleOf second other).outline := by
  simp only [Inspection.moduleOf, ModuleModel.outline, recordReordered.name, recordReordered.doc,
    recordReordered.documented, List.map_map, Function.comp_def,
    reordered.memberOf_outline recordReordered]

theorem baseFindings_eq (reordered : first.Reordered second) {record other : ModuleRecord}
    (recordReordered : record.Reordered other) {type otherType : TypeRecord}
    (typeReordered : type.Reordered otherType) :
    (first.declaredBases type).flatMap (Inspection.baseFindings record type) =
      (second.declaredBases otherType).flatMap (Inspection.baseFindings other otherType) := by
  unfold declaredBases
  rw [typeReordered.bases, List.flatMap_map, List.flatMap_map]
  congr 1
  funext id
  have found := reordered.type? id
  have unknown : (first.type? id = none) ↔ second.type? id = none := by
    generalize first.type? id = left at found
    generalize second.type? id = right at found
    cases found <;> simp
  simp only [Inspection.baseFindings, Inspection.missingBase, recordReordered.name, typeReordered.name,
    unknown]

theorem memberFindings_eq (reordered : first.Reordered second) {record other : ModuleRecord}
    (recordReordered : record.Reordered other) (entry : String × AttributeRecord) :
    Inspection.memberFindings first record entry = Inspection.memberFindings second other entry := by
  obtain ⟨name, attr⟩ := entry
  have ids : Inspection.classId record name attr = Inspection.classId other name attr := by
    simp only [Inspection.classId, recordReordered.name]
  have found := reordered.type? (Inspection.classId other name attr)
  simp only [Inspection.memberFindings, Inspection.classOf?, ids]
  generalize first.type? (Inspection.classId other name attr) = left at found
  generalize second.type? (Inspection.classId other name attr) = right at found
  cases found with
  | none => simp only [Inspection.missingClass, recordReordered.name]
  | some same => simp only [reordered.baseFindings_eq recordReordered same]

theorem moduleFindings_eq (reordered : first.Reordered second) {record other : ModuleRecord}
    (recordReordered : record.Reordered other) :
    Inspection.moduleFindings first record = Inspection.moduleFindings second other := by
  have members : Inspection.memberFindings first record = Inspection.memberFindings second other :=
    funext (reordered.memberFindings_eq recordReordered)
  simp only [Inspection.moduleFindings, Inspection.emptyModule, recordReordered.name,
    recordReordered.documented, members]

end SymbolTable.Reordered

namespace SymbolTable

/-- Reordered tables give the same findings, models with the same outline, and hence the
same pages and the same listing. -/
theorem describe_reordered {first second : SymbolTable} (reordered : first.Reordered second) :
    (first.describe first.modules).2 = (second.describe second.modules).2 ∧
      (first.describe first.modules).1.map (·.outline) =
        (second.describe second.modules).1.map (·.outline) ∧
      (∀ context : SiteContext, context.pages (first.describe first.modules).1 =
        context.pages (second.describe second.modules).1) ∧
      Listing.ofModels (first.describe first.modules).1 =
        Listing.ofModels (second.describe second.modules).1 := by
  have findings : ∀ left right : List ModuleRecord, List.Forall₂ ModuleRecord.Reordered left right →
      left.flatMap (Inspection.moduleFindings first) = right.flatMap (Inspection.moduleFindings second) := by
    intro left right related
    induction related with
    | nil => rfl
    | cons here _ ih => rw [List.flatMap_cons, List.flatMap_cons, reordered.moduleFindings_eq here, ih]
  have outlines : ∀ left right : List ModuleRecord, List.Forall₂ ModuleRecord.Reordered left right →
      (left.map (Inspection.moduleOf first)).map (·.outline) =
        (right.map (Inspection.moduleOf second)).map (·.outline) := by
    intro left right related
    induction related with
    | nil => rfl
    | cons here _ ih => rw [List.map_cons, List.map_cons, List.map_cons, List.map_cons,
        reordered.moduleOf_outline here, ih]
  have outline := outlines first.modules second.modules reordered.modules
  rw [describe_eq, describe_eq]
  refine ⟨findings _ _ reordered.modules, outline, ?_, ?_⟩
  · intro context
    rw [← context.pages_outline, outline, context.pages_outline]
  · rw [← Listing.ofModels_outline, outline, Listing.ofModels_outline]

/-- A class that overrides one attribute of its base, in a module that exports it. -/
def kennel : SymbolTable where
  modules := [{
    name := "kennel"
    exports := some ["Dog", "bark"]
    attributes := ⟨[("bark", .ofFunction "kennel" "()"), ("Dog", .ofClass "kennel" "kennel.Dog")], by decide⟩ }]
  types := ⟨[
    ("kennel.Animal", {
      TypeRecord.ofName "kennel" "Animal" with
      attributes := ⟨[("legs", .ofField "4"), ("name", .ofField "None")], by decide⟩ }),
    ("kennel.Dog", {
      name := "Dog", moduleName := "kennel", bases := ["kennel.Animal"]
      mro := ["kennel.Dog", "kennel.Animal", rootTypeId]
      attributes := ⟨[("name", .ofField "'Rex'"), ("fetch", .ofMethod "(self)" .perInstance)], by decide⟩ })],
    by decide⟩

/-- The same table with every list of entries turned round and an export repeated. -/
def kennelReversed : SymbolTable where
  modules := [{
    name := "kennel"
    exports := some ["bark", "Dog", "bark"]
    attributes := ⟨[("Dog", .ofClass "kennel" "kennel.Dog"), ("bark", .ofFunction "kennel" "()")], by decide⟩ }]
  types := ⟨[
    ("kennel.Dog", {
      name := "Dog", moduleName := "kennel", bases := ["kennel.Animal"]
      mro := ["kennel.Dog", "kennel.Animal", rootTypeId]
      attributes := ⟨[("fetch", .ofMethod "(self)" .perInstance), ("name", .ofField "'Rex'")], by decide⟩ }),
    ("kennel.Animal", {
      TypeRecord.ofName "kennel" "Animal" with
      attributes := ⟨[("name", .ofField "None"), ("legs", .ofField "4")], by decide⟩ })],
    by decide⟩

theorem kennel_reordered : kennel.Reordered kennelReversed where
  modules := by
    refine .cons ⟨rfl, rfl, .some ?_, .swap _ _ _⟩ .nil
    intro name
    simp only [List.mem_cons, List.not_mem_nil, or_false]
    tauto
  types := by
    refine ⟨kennel.types.entries.reverse, (List.reverse_perm _).symm, ?_⟩
    refine .cons ⟨rfl, rfl, rfl, rfl, rfl, rfl, rfl, .swap _ _ _⟩ (.cons ⟨rfl, ?_⟩ .nil)
    exact ⟨rfl, rfl, rfl, rfl, rfl, rfl, .swap _ _ _⟩

theorem describe_kennel_reordered :
    kennel.Reordered kennelReversed ∧
      (kennel.describe kennel.modules).2 = (kennelReversed.describe kennelReversed.modules).2 ∧
      ∀ context : SiteContext, context.pages (kennel.describe kennel.modules).1 =
        context.pages (kennelReversed.describe kennelReversed.modules).1 :=
  ⟨kennel_reordered, (describe_reordered kennel_reordered).1,
    (describe_reordered kennel_reordered).2.2.1⟩

end SymbolTable

end ApiReference

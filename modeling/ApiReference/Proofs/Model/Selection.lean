import ApiReference.Proofs.Model.Inspection
import ApiReference.Proofs.OrderedMap
import ApiReference.Proofs.Ranking

namespace ApiReference

/-! Which attributes of a module become its members, in which order, and how the members divide
into fields, functions and classes. -/

namespace ModuleRecord

variable {record : ModuleRecord} {name : String} {attr : AttributeRecord}

theorem documents_of_exports {exported : List String} (given : record.exports = some exported) :
    record.documents name attr = true ↔ name ∈ exported := by
  rw [documents, given]
  exact List.contains_iff_mem

theorem documents_of_no_exports (absent : record.exports = none) :
    record.documents name attr = true ↔
      ¬ "__".toList <+: name.toList ∧ (attr.owner = none ∨ attr.owner = some record.name) := by
  have unreserved : isReservedName name = false ↔ ¬ "__".toList <+: name.toList := by
    rw [← Bool.not_eq_true, isReservedName, Text.startsWith, List.isPrefixOf_iff_prefix]
  rw [documents, absent]
  cases attr.owner with
  | none => simp [unreserved]
  | some owner => simp [unreserved]

theorem mem_documented_iff :
    (name, attr) ∈ record.documented ↔
      record.attributes.get? name = some attr ∧ record.documents name attr = true := by
  rw [documented, (rank_perm _ _).mem_iff, List.mem_filter, OrderedMap.get?_eq_some_iff]

/-- What a module shows of its attributes: those that its exports name or, without exports, those that
it owns or nobody does and whose names are not reserved. -/
def Shows (record : ModuleRecord) (name : String) (attr : AttributeRecord) : Prop :=
  record.attributes.get? name = some attr ∧
    (∀ exported, record.exports = some exported → name ∈ exported) ∧
    (record.exports = none → ¬ "__".toList <+: name.toList ∧ (attr.owner = none ∨ attr.owner = some record.name))

theorem mem_documented_iff_shows : (name, attr) ∈ record.documented ↔ record.Shows name attr := by
  rw [mem_documented_iff, Shows]
  cases given : record.exports with
  | none => simp [documents_of_no_exports given]
  | some exported => simp [documents_of_exports given]

/-- No name is used twice, so the names ascend strictly. -/
theorem documented_ascend (record : ModuleRecord) : (record.documented.map Prod.fst).Pairwise (· < ·) := by
  apply List.pairwise_map.mpr
  apply rank_ascends
  · intro a b
    exact decide_eq_true_iff
  · exact record.attributes.distinct.sublist (List.filter_sublist.map Prod.fst)

end ModuleRecord

namespace Member

/-- The kind of attribute that a member is shown as. -/
def shownAs (member : Member) : SymbolKind :=
  match member.kind with
  | .field => .data
  | .function => .function
  | .classType _ => .classType

theorem isField_iff {member : Member} : member.isField = true ↔ member.shownAs = .data := by
  unfold isField shownAs
  cases member.kind <;> simp

theorem isFunction_iff {member : Member} : member.isFunction = true ↔ member.shownAs = .function := by
  unfold isFunction shownAs
  cases member.kind <;> simp

theorem isClass_iff {member : Member} : member.isClass = true ↔ member.shownAs = .classType := by
  unfold isClass classModel? shownAs
  cases member.kind <;> simp

end Member

namespace ModuleModel

/-- The members that are shown as attributes of one kind. -/
def view (model : ModuleModel) (kind : SymbolKind) : List Member := model.members.filter (·.shownAs = kind)

theorem fields_eq_view (model : ModuleModel) : model.fields = model.view .data :=
  List.filter_congr fun _ _ => Bool.eq_iff_iff.mpr (Member.isField_iff.trans decide_eq_true_iff.symm)

theorem functions_eq_view (model : ModuleModel) : model.functions = model.view .function :=
  List.filter_congr fun _ _ => Bool.eq_iff_iff.mpr (Member.isFunction_iff.trans decide_eq_true_iff.symm)

theorem classes_eq_view (model : ModuleModel) : model.classes = model.view .classType :=
  List.filter_congr fun _ _ => Bool.eq_iff_iff.mpr (Member.isClass_iff.trans decide_eq_true_iff.symm)

theorem mem_view_iff {model : ModuleModel} {kind : SymbolKind} {member : Member} :
    member ∈ model.view kind ↔ member ∈ model.members ∧ member.shownAs = kind := by
  rw [view, List.mem_filter, decide_eq_true_iff]

/-- The kinds in the order of their views. -/
def kinds : List SymbolKind := [.data, .function, .classType]

theorem views_eq (model : ModuleModel) : [model.fields, model.functions, model.classes] = kinds.map model.view := by
  rw [fields_eq_view, functions_eq_view, classes_eq_view]
  rfl

theorem views_sublist (model : ModuleModel) : ∀ view ∈ kinds.map model.view, view.Sublist model.members :=
  List.forall_mem_map.mpr fun _ _ => List.filter_sublist

theorem views_disjoint (model : ModuleModel) : (kinds.map model.view).Pairwise List.Disjoint := by
  have apart : kinds.Pairwise (· ≠ ·) := by decide
  refine List.pairwise_map.mpr (apart.imp ?_)
  intro kind other different member first second
  exact different ((mem_view_iff.mp first).2.symm.trans (mem_view_iff.mp second).2)

/-- Every member is in exactly one view. -/
theorem views_perm (model : ModuleModel) : (kinds.flatMap model.view).Perm model.members := by
  refine flatMap_filter_perm (by decide) ?_
  intro member _
  cases member.shownAs <;> decide

end ModuleModel

namespace Inspection

theorem memberOf_attr (table : SymbolTable) (record : ModuleRecord) (entry : String × AttributeRecord) :
    (memberOf table record entry).attr = entry.2 := by
  obtain ⟨name, attr⟩ := entry
  cases kind : attr.kind <;> simp [memberOf, kind]

theorem memberOf_shownAs (table : SymbolTable) (record : ModuleRecord) (entry : String × AttributeRecord) :
    (memberOf table record entry).shownAs = entry.2.kind := by
  obtain ⟨name, attr⟩ := entry
  cases kind : attr.kind <;> simp [memberOf, kind, Member.shownAs]

theorem mem_names_moduleOf_iff {table : SymbolTable} {record : ModuleRecord} {name : String} :
    name ∈ (moduleOf table record).members.map (·.name) ↔
      ∃ attr, record.attributes.get? name = some attr ∧ record.documents name attr = true := by
  rw [moduleOf_names, List.mem_map]
  constructor
  · intro ⟨(_, attr), listed, same⟩
    exact ⟨attr, ModuleRecord.mem_documented_iff.mp (same ▸ listed)⟩
  · intro ⟨attr, selected⟩
    exact ⟨(name, attr), ModuleRecord.mem_documented_iff.mpr selected, rfl⟩

/-- The members of a described module ascend by name. With a list of exports they are the
attributes it names; without one they are those whose names are not reserved and that the module
owns or nobody does. Each member is in the one view, in the order of the members, that the kind of
its attribute asks for. -/
theorem describeModule_exact (table : SymbolTable) (record : ModuleRecord) (log : FindingLog) :
    ∃ model findings, (describeModule table record).run log = (model, log.addAll findings) ∧
      (model.members.map (·.name)).Pairwise (· < ·) ∧
      (∀ exported, record.exports = some exported → ∀ name, name ∈ model.members.map (·.name) ↔
        name ∈ record.attributes.keys ∧ name ∈ exported) ∧
      (record.exports = none → ∀ name, name ∈ model.members.map (·.name) ↔
        ∃ attr, record.attributes.get? name = some attr ∧ ¬ "__".toList <+: name.toList ∧
          (attr.owner = none ∨ attr.owner = some record.name)) ∧
      (∀ member ∈ model.members, record.attributes.get? member.name = some member.attr ∧
        (member ∈ model.fields ↔ member.attr.kind = .data) ∧
        (member ∈ model.functions ↔ member.attr.kind = .function) ∧
        (member ∈ model.classes ↔ member.attr.kind = .classType)) ∧
      [model.fields, model.functions, model.classes].Pairwise List.Disjoint ∧
      (∀ view ∈ [model.fields, model.functions, model.classes], view.Sublist model.members) ∧
      (model.fields ++ model.functions ++ model.classes).Perm model.members := by
  refine ⟨moduleOf table record, _, gives_describeModule table record log, ?_, ?_, ?_, ?_, ?_, ?_, ?_⟩
  · rw [moduleOf_names]
    exact record.documented_ascend
  · intro exported given name
    simp only [mem_names_moduleOf_iff, ModuleRecord.documents_of_exports given, exists_and_right,
      ← Option.isSome_iff_exists, OrderedMap.isSome_get?_iff]
  · intro absent name
    simp only [mem_names_moduleOf_iff, ModuleRecord.documents_of_no_exports absent]
  · intro member listed
    obtain ⟨entry, documented, same⟩ := List.mem_map.mp listed
    subst same
    have shown : ∀ kind, memberOf table record entry ∈ (moduleOf table record).view kind ↔
        (memberOf table record entry).attr.kind = kind := by
      intro kind
      rw [ModuleModel.mem_view_iff, memberOf_shownAs, memberOf_attr]
      exact and_iff_right listed
    rw [ModuleModel.fields_eq_view, ModuleModel.functions_eq_view, ModuleModel.classes_eq_view]
    refine ⟨?_, shown .data, shown .function, shown .classType⟩
    rw [memberOf_name, memberOf_attr]
    exact (ModuleRecord.mem_documented_iff.mp documented).1
  · rw [ModuleModel.views_eq]
    exact ModuleModel.views_disjoint _
  · rw [ModuleModel.views_eq]
    exact ModuleModel.views_sublist _
  · rw [ModuleModel.fields_eq_view, ModuleModel.functions_eq_view, ModuleModel.classes_eq_view]
    simpa [ModuleModel.kinds] using (moduleOf table record).views_perm

end Inspection

end ApiReference

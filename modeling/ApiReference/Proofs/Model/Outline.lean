import ApiReference.Listing.Basic
import ApiReference.Site.Rendering

namespace ApiReference

/-! The outline of a documentation model: all of it but the attribute tables of the class
records that it refers to.

Pages and listings show nothing beyond the outline. -/

/-- The record of a class without its attribute table. -/
def TypeRecord.outline (type : TypeRecord) : TypeRecord := { type with attributes := ∅ }

def Base.outline (base : Base) : Base := { base with record := base.record.map (·.outline) }

def ClassMember.outline (member : ClassMember) : ClassMember :=
  { member with lineage := member.lineage.map (·.outline) }

def ClassModel.outline (model : ClassModel) : ClassModel where
  record := model.record.map (·.outline)
  bases := model.bases.map (·.outline)
  members := model.members.map (·.outline)

def MemberKind.outline : MemberKind → MemberKind
  | .field => .field
  | .function => .function
  | .classType model => .classType model.outline

def Member.outline (member : Member) : Member := { member with kind := member.kind.outline }

def ModuleModel.outline (model : ModuleModel) : ModuleModel :=
  { model with members := model.members.map (·.outline) }

/-- A selection by what an outline keeps is the same before and after. -/
theorem filter_map_outline {α : Type} (outline : α → α) {chosen : α → Bool}
    (kept : ∀ value, chosen (outline value) = chosen value) (values : List α) :
    (values.map outline).filter chosen = (values.filter chosen).map outline := by
  rw [List.filter_map]
  congr 1
  apply List.filter_congr
  intro value _
  exact kept value

namespace Base

@[simp] theorem displayName_outline (base : Base) : base.outline.displayName = base.displayName := by
  obtain ⟨id, _ | record⟩ := base <;> rfl

@[simp] theorem moduleName?_outline (base : Base) : base.outline.moduleName? = base.moduleName? := by
  obtain ⟨id, _ | record⟩ := base <;> rfl

@[simp] theorem name_outline (base : Base) : base.outline.name = base.name := by
  obtain ⟨id, _ | record⟩ := base <;> rfl

end Base

namespace ClassModel

@[simp] theorem form?_outline (model : ClassModel) : model.outline.form? = model.form? := by
  obtain ⟨_ | record, bases, members⟩ := model <;> rfl

end ClassModel

namespace ModuleModel

theorem isField_outline (member : Member) : member.outline.isField = member.isField := by
  obtain ⟨name, attr, doc, signature, _ | _ | model⟩ := member <;> rfl

theorem isFunction_outline (member : Member) : member.outline.isFunction = member.isFunction := by
  obtain ⟨name, attr, doc, signature, _ | _ | model⟩ := member <;> rfl

theorem fields_outline (model : ModuleModel) : model.outline.fields = model.fields.map (·.outline) :=
  filter_map_outline Member.outline isField_outline model.members

theorem functions_outline (model : ModuleModel) :
    model.outline.functions = model.functions.map (·.outline) :=
  filter_map_outline Member.outline isFunction_outline model.members

@[simp] theorem isEmpty_outline (model : ModuleModel) : model.outline.isEmpty = model.isEmpty := by
  simp [isEmpty, outline]

end ModuleModel

namespace SiteContext

variable (context : SiteContext)

theorem baseEntry_outline (base : Base) : context.baseEntry base.outline = context.baseEntry base := by
  simp [baseEntry]

theorem classLines_outline (pageAddress : String) (model : ClassModel) :
    classLines pageAddress model.outline = classLines pageAddress model := by
  have shown : ((model.outline.members.filter fun member => !member.isConstructor).map
      (classMemberLine pageAddress)) =
      (model.members.filter fun member => !member.isConstructor).map (classMemberLine pageAddress) := by
    unfold ClassModel.outline
    rw [filter_map_outline ClassMember.outline (fun _ => rfl), List.map_map]
    rfl
  unfold classLines
  rw [shown, ClassModel.form?_outline]

theorem classFields_outline (model : ClassModel) : classFields model.outline = classFields model := by
  have shown : model.outline.fields.map (fun member => (⟨member.name, member.declaration.value⟩ : ValueLine)) =
      model.fields.map fun member => ⟨member.name, member.declaration.value⟩ := by
    unfold ClassModel.fields ClassModel.outline
    rw [filter_map_outline ClassMember.outline (fun _ => rfl), List.map_map]
    rfl
  unfold classFields
  rw [shown, ClassModel.form?_outline]

theorem classEntry_outline (moduleName : String) (member : Member) (model : ClassModel) :
    context.classEntry moduleName member.outline model.outline =
      context.classEntry moduleName member model := by
  simp only [classEntry, classLines_outline]
  rfl

theorem classPage_outline (moduleName : String) (member : Member) (model : ClassModel) :
    context.classPage moduleName member.outline model.outline =
      context.classPage moduleName member model := by
  have bases : model.outline.bases.map context.baseEntry = model.bases.map context.baseEntry := by
    simp [ClassModel.outline, Function.comp_def, baseEntry_outline]
  have properties : model.outline.properties.map propertyRow = model.properties.map propertyRow := by
    unfold ClassModel.properties ClassModel.outline
    rw [filter_map_outline ClassMember.outline (fun _ => rfl), List.map_map]
    rfl
  have methods : model.outline.methods.map (fun method =>
      functionDoc method.name method.docstring method.signature? method.decorator?) =
      model.methods.map fun method =>
        functionDoc method.name method.docstring method.signature? method.decorator? := by
    unfold ClassModel.methods ClassModel.outline
    rw [filter_map_outline ClassMember.outline (fun _ => rfl), List.map_map]
    rfl
  unfold classPage
  rw [bases, properties, methods, classFields_outline]
  rfl

theorem classesOf_outline (model : ModuleModel) :
    classesOf model.outline = (classesOf model).map (Prod.map Member.outline ClassModel.outline) := by
  unfold classesOf ModuleModel.outline
  rw [List.filterMap_map, List.map_filterMap]
  congr 1
  funext member
  obtain ⟨name, attr, doc, signature, _ | _ | known⟩ := member <;> rfl

theorem overview_outline (model : ModuleModel) :
    context.overview model.outline = context.overview model := by
  unfold overview
  rw [ModuleModel.fields_outline, ModuleModel.functions_outline, classesOf_outline, List.map_map,
    List.map_map, List.map_map]
  simp only [Function.comp_def, Prod.map, classEntry_outline]
  rfl

theorem fieldsPage_outline (model : ModuleModel) :
    context.fieldsPage model.outline = context.fieldsPage model := by
  unfold fieldsPage
  rw [ModuleModel.fields_outline, List.map_map]
  rfl

theorem functionsPage_outline (model : ModuleModel) :
    context.functionsPage model.outline = context.functionsPage model := by
  unfold functionsPage
  rw [ModuleModel.functions_outline, List.map_map]
  rfl

theorem moduleDrafts_outline (model : ModuleModel) :
    context.moduleDrafts model.outline = context.moduleDrafts model := by
  have classPages : (classesOf model.outline).map (fun entry => (⟨some model.name,
      Page.className entry.1.name, .classPage (context.classPage model.name entry.1 entry.2)⟩ : Draft)) =
      (classesOf model).map fun entry => ⟨some model.name, Page.className entry.1.name,
        .classPage (context.classPage model.name entry.1 entry.2)⟩ := by
    rw [classesOf_outline, List.map_map]
    simp only [Function.comp_def, Prod.map, classPage_outline]
    rfl
  simp only [moduleDrafts, overview_outline, fieldsPage_outline, functionsPage_outline,
    ModuleModel.fields_outline, ModuleModel.functions_outline, List.isEmpty_map]
  exact congrArg _ classPages

theorem documented_outline (models : List ModuleModel) :
    documented (models.map (·.outline)) = (documented models).map (·.outline) := by
  unfold documented
  rw [List.filter_map]
  congr 1
  apply List.filter_congr
  intro model _
  simp

theorem drafts_outline (models : List ModuleModel) :
    context.drafts (models.map (·.outline)) = context.drafts models := by
  simp only [drafts, documented_outline, List.flatMap_map, moduleDrafts_outline, List.isEmpty_map,
    List.map_map]
  rfl

theorem pages_outline (models : List ModuleModel) :
    context.pages (models.map (·.outline)) = context.pages models := by
  unfold pages
  rw [drafts_outline]

end SiteContext

namespace Listing

theorem classMember_outline (member : ClassMember) :
    classMember member.outline = classMember member := by
  have names : member.outline.lineage.map (·.name) = member.lineage.map (·.name) := by
    simp [ClassMember.outline, Function.comp_def, TypeRecord.outline]
  have classes : origin member.outline.lineage = origin member.lineage := by
    unfold origin
    rw [names]
    simp [ClassMember.outline]
  unfold classMember
  rw [classes]
  rfl

theorem classModel_outline (model : ClassModel) : classModel model.outline = classModel model := by
  have baseNames : bases model.outline.bases = bases model.bases := by
    simp [bases, ClassModel.outline, Function.comp_def]
  have constants : model.outline.constants = model.constants := by
    simp only [ClassModel.constants, ClassModel.form?_outline]
  have recordFields : model.outline.recordFields = model.recordFields := by
    simp only [ClassModel.recordFields, ClassModel.form?_outline]
  have members : model.outline.members.flatMap classMember = model.members.flatMap classMember := by
    simp only [ClassModel.outline, List.flatMap_map, classMember_outline]
  unfold classModel
  rw [baseNames, constants, recordFields, members]

theorem member_outline (known : Member) : member known.outline = member known := by
  obtain ⟨name, attr, doc, signature, _ | _ | model⟩ := known
  · rfl
  · rfl
  · simp only [member, Member.outline, MemberKind.outline, classModel_outline]
    rfl

theorem ofModels_outline (models : List ModuleModel) :
    ofModels (models.map (·.outline)) = ofModels models := by
  have shown : ∀ model : ModuleModel, moduleModel model.outline = moduleModel model := by
    intro model
    unfold moduleModel
    rw [ModuleModel.isEmpty_outline]
    simp only [ModuleModel.outline, List.flatMap_map, member_outline]
    rfl
  unfold ofModels
  rw [List.flatMap_map]
  simp only [shown]

end Listing

end ApiReference

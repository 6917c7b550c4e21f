import ApiReference.Model.ClassMember

namespace ApiReference

/-! The documentation model: modules, what they hold, and their classes. -/

/-- What is known of a class: nothing but its name when the table has no record of it. -/
structure ClassModel where
  record : Option TypeRecord := none
  bases : List Base := []
  members : List ClassMember := []
deriving DecidableEq

namespace ClassModel

def form? (model : ClassModel) : Option TypeForm := model.record.map (·.form)

def isSpecial (model : ClassModel) : Bool :=
  match model.form? with
  | some form => form.isSpecial
  | none => false

def isEnumeration (model : ClassModel) : Bool :=
  match model.form? with
  | some (.enumeration _) => true
  | _ => false

def isRecord (model : ClassModel) : Bool :=
  match model.form? with
  | some (.record _) => true
  | _ => false

def constants (model : ClassModel) : List EnumConstant :=
  match model.form? with
  | some (.enumeration constants) => constants
  | _ => []

def recordFields (model : ClassModel) : List RecordField :=
  match model.form? with
  | some (.record fields) => fields
  | _ => []

def constructor? (model : ClassModel) : Option ClassMember :=
  model.members.find? (·.isConstructor)

def fields (model : ClassModel) : List ClassMember := model.members.filter (·.kind = .field)

def properties (model : ClassModel) : List ClassMember := model.members.filter (·.kind = .property)

def methods (model : ClassModel) : List ClassMember := model.members.filter (·.kind = .method)

end ClassModel

inductive MemberKind where
  | field
  | function
  | classType (model : ClassModel)
deriving DecidableEq

/-- A documented attribute of a module. -/
structure Member where
  name : String
  attr : AttributeRecord
  doc : Option String
  signature : Option String
  kind : MemberKind
deriving DecidableEq

namespace Member

def docstring (member : Member) : Docstring := .parse member.doc

def value (member : Member) : Option String := member.attr.value

def isField (member : Member) : Bool :=
  match member.kind with
  | .field => true
  | _ => false

def isFunction (member : Member) : Bool :=
  match member.kind with
  | .function => true
  | _ => false

def classModel? (member : Member) : Option ClassModel :=
  match member.kind with
  | .classType model => some model
  | _ => none

def isClass (member : Member) : Bool := member.classModel?.isSome

end Member

structure ModuleModel where
  name : String
  doc : Option String
  members : List Member
deriving DecidableEq

namespace ModuleModel

def docstring (model : ModuleModel) : Docstring := .parse model.doc

def isEmpty (model : ModuleModel) : Bool := model.members.isEmpty

def fields (model : ModuleModel) : List Member := model.members.filter (·.isField)

def functions (model : ModuleModel) : List Member := model.members.filter (·.isFunction)

def classes (model : ModuleModel) : List Member := model.members.filter (·.isClass)

def member? (model : ModuleModel) (name : String) : Option Member :=
  model.members.find? (·.name = name)

end ModuleModel

end ApiReference

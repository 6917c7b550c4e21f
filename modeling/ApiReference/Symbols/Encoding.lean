import ApiReference.Json.Writer
import ApiReference.Symbols.Record

namespace ApiReference

/-! Symbol tables as JSON: records are objects with their fields in declared order,
and an absent optional field is left out. -/

namespace Json

def optionalText (name : String) : Option String → List (String × Json)
  | none => []
  | some text => [(name, ofText text)]

def ofMap {α : Type} (encode : α → Json) (map : OrderedMap α) : Json :=
  ofMembers (map.entries.map fun (name, value) => (name, encode value))

end Json

def SymbolKind.encode : SymbolKind → Json
  | .classType => .ofText "class"
  | .function => .ofText "function"
  | .data => .ofText "data"

def AttributeRecord.encode (record : AttributeRecord) : Json :=
  .ofMembers ([("kind", record.kind.encode)] ++
    Json.optionalText "owner" record.owner ++
    Json.optionalText "doc" record.doc ++
    Json.optionalText "signature" record.signature ++
    Json.optionalText "type" record.typeId ++
    Json.optionalText "value" record.value)

def ModuleRecord.encodeExports : Option (List String) → List (String × Json)
  | none => []
  | some names => [("exports", .ofTexts names)]

def ModuleRecord.encode (record : ModuleRecord) : Json :=
  .ofMembers ([("name", .ofText record.name)] ++
    Json.optionalText "doc" record.doc ++
    encodeExports record.exports ++
    [("attributes", .ofMap AttributeRecord.encode record.attributes)])

def AttributeKind.encode : AttributeKind → Json
  | .field => .ofText "field"
  | .property => .ofText "property"
  | .method => .ofText "method"

def Binding.encode : Binding → Json
  | .perInstance => .ofText "instance"
  | .static => .ofText "static"
  | .perClass => .ofText "class"

def ClassAttribute.encode (declaration : ClassAttribute) : Json :=
  .ofMembers ([("kind", declaration.kind.encode)] ++
    Json.optionalText "doc" declaration.doc ++
    Json.optionalText "signature" declaration.signature ++
    Json.optionalText "value" declaration.value ++
    [("binding", declaration.binding.encode),
     ("getter", .bool declaration.getter),
     ("setter", .bool declaration.setter),
     ("deleter", .bool declaration.deleter)])

def EnumConstant.encode (constant : EnumConstant) : Json :=
  .ofMembers [("name", .ofText constant.name), ("value", .ofText constant.value)]

def RecordField.encode (field : RecordField) : Json :=
  .ofMembers ([("name", .ofText field.name)] ++ Json.optionalText "doc" field.doc)

def TypeForm.encode : TypeForm → Json
  | .plain => .ofText "plain"
  | .enumeration constants =>
      .ofMembers [("enumeration", .array (constants.map EnumConstant.encode))]
  | .record fields => .ofMembers [("record", .array (fields.map RecordField.encode))]

def TypeRecord.encode (type : TypeRecord) : Json :=
  .ofMembers ([("name", .ofText type.name), ("module", .ofText type.moduleName)] ++
    Json.optionalText "doc" type.doc ++
    [("bases", .ofTexts type.bases),
     ("mro", .ofTexts type.mro),
     ("attributes", .ofMap ClassAttribute.encode type.attributes),
     ("form", type.form.encode)])

namespace SymbolTable

def encode (table : SymbolTable) : Json :=
  .ofMembers [("modules", .array (table.modules.map ModuleRecord.encode)),
    ("types", .ofMap TypeRecord.encode table.types)]

/-- The table as JSON text. -/
def render (table : SymbolTable) : String :=
  table.encode.pretty 0

end SymbolTable

end ApiReference

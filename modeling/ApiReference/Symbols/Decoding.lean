import ApiReference.Json.Reader
import ApiReference.Json.Record
import ApiReference.Symbols.Record

namespace ApiReference

/-! Symbol tables from JSON. Every record names its fields in declared order, which is
also their order when the record is written as an array. -/

def SymbolKind.decode? (json : Json) : Option SymbolKind := do
  match ← json.choice? with
  | "class" => return .classType
  | "function" => return .function
  | "data" => return .data
  | _ => none

def AttributeRecord.fieldNames : List String :=
  ["kind", "owner", "doc", "signature", "type", "value"]

def AttributeRecord.decode? (json : Json) : Option AttributeRecord := do
  let fields ← json.record? fieldNames
  return {
    kind := ← Json.withDefault? fields "kind" SymbolKind.decode? .data
    owner := ← Json.withDefault? fields "owner" Json.optionalText? none
    doc := ← Json.withDefault? fields "doc" Json.optionalText? none
    signature := ← Json.withDefault? fields "signature" Json.optionalText? none
    typeId := ← Json.withDefault? fields "type" Json.optionalText? none
    value := ← Json.withDefault? fields "value" Json.optionalText? none }

def ModuleRecord.decodeExports? : Json → Option (Option (List String))
  | .null => some none
  | json => (json.list? Json.text?).map some

def ModuleRecord.fieldNames : List String := ["name", "doc", "exports", "attributes"]

def ModuleRecord.decode? (json : Json) : Option ModuleRecord := do
  let fields ← json.record? fieldNames
  return {
    name := ← Json.required? fields "name" Json.text?
    doc := ← Json.withDefault? fields "doc" Json.optionalText? none
    exports := ← Json.withDefault? fields "exports" decodeExports? none
    attributes := ← Json.withDefault? fields "attributes" (Json.map? AttributeRecord.decode?) ∅ }

def AttributeKind.decode? (json : Json) : Option AttributeKind := do
  match ← json.choice? with
  | "field" => return .field
  | "property" => return .property
  | "method" => return .method
  | _ => none

def Binding.decode? (json : Json) : Option Binding := do
  match ← json.choice? with
  | "instance" => return .perInstance
  | "static" => return .static
  | "class" => return .perClass
  | _ => none

def ClassAttribute.fieldNames : List String :=
  ["kind", "doc", "signature", "value", "binding", "getter", "setter", "deleter"]

def ClassAttribute.decode? (json : Json) : Option ClassAttribute := do
  let fields ← json.record? fieldNames
  return {
    kind := ← Json.withDefault? fields "kind" AttributeKind.decode? .field
    doc := ← Json.withDefault? fields "doc" Json.optionalText? none
    signature := ← Json.withDefault? fields "signature" Json.optionalText? none
    value := ← Json.withDefault? fields "value" Json.optionalText? none
    binding := ← Json.withDefault? fields "binding" Binding.decode? .perInstance
    getter := ← Json.withDefault? fields "getter" Json.flag? false
    setter := ← Json.withDefault? fields "setter" Json.flag? false
    deleter := ← Json.withDefault? fields "deleter" Json.flag? false }

def EnumConstant.fieldNames : List String := ["name", "value"]

def EnumConstant.decode? (json : Json) : Option EnumConstant := do
  let fields ← json.record? fieldNames
  return {
    name := ← Json.required? fields "name" Json.text?
    value := ← Json.required? fields "value" Json.text? }

def RecordField.fieldNames : List String := ["name", "doc"]

def RecordField.decode? (json : Json) : Option RecordField := do
  let fields ← json.record? fieldNames
  return {
    name := ← Json.required? fields "name" Json.text?
    doc := ← Json.withDefault? fields "doc" Json.optionalText? none }

/-- The plain form has no data; the other two are objects that give it. -/
def TypeForm.decode? : Json → Option TypeForm
  | .object [(some "enumeration", constants)] =>
      (constants.list? EnumConstant.decode?).map .enumeration
  | .object [(some "record", fields)] => (fields.list? RecordField.decode?).map .record
  | json => do
      match ← json.choice? with
      | "plain" => return .plain
      | _ => none

def TypeRecord.fieldNames : List String :=
  ["name", "module", "doc", "bases", "mro", "attributes", "form"]

def TypeRecord.decode? (json : Json) : Option TypeRecord := do
  let fields ← json.record? fieldNames
  return {
    name := ← Json.required? fields "name" Json.text?
    moduleName := ← Json.required? fields "module" Json.text?
    doc := ← Json.withDefault? fields "doc" Json.optionalText? none
    bases := ← Json.withDefault? fields "bases" (Json.list? Json.text?) []
    mro := ← Json.withDefault? fields "mro" (Json.list? Json.text?) []
    attributes := ← Json.withDefault? fields "attributes" (Json.map? ClassAttribute.decode?) ∅
    form := ← Json.withDefault? fields "form" TypeForm.decode? .plain }

namespace SymbolTable

def fieldNames : List String := ["modules", "types"]

def decode? (json : Json) : Option SymbolTable := do
  let fields ← json.record? fieldNames
  return {
    modules := ← Json.withDefault? fields "modules" (Json.list? ModuleRecord.decode?) []
    types := ← Json.withDefault? fields "types" (Json.map? TypeRecord.decode?) ∅ }

/-- The table written in a JSON text. -/
def parse? (text : String) : Option SymbolTable :=
  (Json.parse? text).bind decode?

end SymbolTable

end ApiReference

import ApiReference.Finding
import ApiReference.Model.Basic
import ApiReference.Text.Markup

namespace ApiReference

/-! Describing the modules of a symbol table, with the findings made on the way. -/

/-- With a list of exports exactly its names are documented. Without one, reserved names
and the attributes of other modules are left out. -/
def ModuleRecord.documents (record : ModuleRecord) (name : String) (attr : AttributeRecord) :
    Bool :=
  match record.exports with
  | some names => names.contains name
  | none =>
      !isReservedName name &&
        match attr.owner with
        | some owner => owner = record.name
        | none => true

/-- The documented attributes, in the order of their names. -/
def ModuleRecord.documented (record : ModuleRecord) : List (String × AttributeRecord) :=
  rank (fun a b => a.1 ≤ b.1)
    (record.attributes.entries.filter fun (name, attr) => record.documents name attr)

abbrev Inspection := StateM FindingLog

namespace Inspection

def note (record : ModuleRecord) (severity : Severity) (message : String) : Inspection Unit :=
  modify (·.add { severity, message, moduleName := some record.name })

/-- The identity under which the class of an attribute is looked up. -/
def classId (record : ModuleRecord) (name : String) (attr : AttributeRecord) : String :=
  match attr.typeId with
  | some id => id
  | none => attr.owner.getD record.name ++ "." ++ name

def findClass (table : SymbolTable) (record : ModuleRecord) (name : String)
    (attr : AttributeRecord) : Inspection (Option TypeRecord) := do
  let id := classId record name attr
  match table.type? id with
  | some type => return some type
  | none =>
      note record .warning ("class `" ++ id ++ "` has no record in the symbol table")
      return none

/-- A base is worth a finding when the table does not know it and it is not the root type. -/
def noteBase (record : ModuleRecord) (type : TypeRecord) (base : Base) : Inspection Unit :=
  if base.record = none ∧ base.id ≠ rootTypeId then
    note record .info
      ("base `" ++ base.id ++ "` of `" ++ type.name ++ "` is not in the symbol table")
  else return ()

/-- Special forms are described without their members. -/
def describeClass (table : SymbolTable) (record : ModuleRecord) (type : TypeRecord) :
    Inspection ClassModel := do
  let bases := table.declaredBases type
  bases.forM (noteBase record type)
  return {
    record := some type
    bases
    members := if type.form.isSpecial then [] else table.classMembers type }

/-- The signature of a class: the recorded one, or that of the constructor the class itself
declares, as callers see it. -/
def classSignature? (attr : AttributeRecord) (type : Option TypeRecord) : Option String :=
  match attr.signature with
  | some signature => some signature
  | none => do
      let declared ← (← type).attributes.get? constructorName
      return Text.dropReceiver (← declared.signature)

def describeMember (table : SymbolTable) (record : ModuleRecord)
    (entry : String × AttributeRecord) : Inspection Member := do
  let (name, attr) := entry
  match attr.kind with
  | .function =>
      return { name, attr, doc := attr.doc, signature := attr.signature, kind := .function }
  | .data => return { name, attr, doc := attr.doc, signature := none, kind := .field }
  | .classType =>
      let type ← findClass table record name attr
      let model ← match type with
        | some type => describeClass table record type
        | none => pure {}
      return {
        name, attr
        doc := attr.doc <|> type.bind (·.doc)
        signature := classSignature? attr type
        kind := .classType model }

def describeModule (table : SymbolTable) (record : ModuleRecord) : Inspection ModuleModel := do
  let members ← record.documented.mapM (describeMember table record)
  if members.isEmpty then note record .info "module exports nothing"
  return { name := record.name, doc := record.doc, members }

end Inspection

/-- The models of modules, in the order given, and all findings. -/
def SymbolTable.describe (table : SymbolTable) (records : List ModuleRecord) :
    List ModuleModel × List Finding :=
  let (models, log) := (records.mapM (Inspection.describeModule table)).run {}
  (models, log.findings)

end ApiReference

import ApiReference.OrderedMap
import ApiReference.Text.Line

namespace ApiReference

/-! The symbol table: what is known of a package before anything is documented.

It holds modules with their attributes and classes with their bases, resolution
order and the attributes they declare themselves. -/

/-- Names with two leading underscores are reserved. -/
def isReservedName (name : String) : Bool := Text.startsWith "__" name

/-- Names with a leading underscore are not public. -/
def isPrivateName (name : String) : Bool := Text.startsWith "_" name

/-- The name under which a class declares its constructor. -/
def constructorName : String := "__init__"

/-- The identity of the type that every class derives from. -/
def rootTypeId : String := "builtins.object"

inductive SymbolKind where
  | classType
  | function
  | data
deriving DecidableEq, Repr, Inhabited

/-- A name that a module holds. -/
structure AttributeRecord where
  kind : SymbolKind := .data
  /-- The module that defines the attribute. -/
  owner : Option String := none
  doc : Option String := none
  signature : Option String := none
  /-- The identity of the class, for an attribute that is one. -/
  typeId : Option String := none
  value : Option String := none
deriving DecidableEq, Inhabited

structure ModuleRecord where
  name : String
  doc : Option String := none
  /-- The names the module exports, when it says so. -/
  exports : Option (List String) := none
  attributes : OrderedMap AttributeRecord := ∅
deriving DecidableEq, Inhabited

inductive AttributeKind where
  | field
  | property
  | method
deriving DecidableEq, Repr, Inhabited

inductive Binding where
  | perInstance
  | static
  | perClass
deriving DecidableEq, Repr, Inhabited

/-- A name that a class declares itself. -/
structure ClassAttribute where
  kind : AttributeKind := .field
  doc : Option String := none
  signature : Option String := none
  value : Option String := none
  binding : Binding := .perInstance
  getter : Bool := false
  setter : Bool := false
  deleter : Bool := false
deriving DecidableEq, Inhabited

structure EnumConstant where
  name : String
  value : String
deriving DecidableEq, Inhabited

structure RecordField where
  name : String
  doc : Option String := none
deriving DecidableEq, Inhabited

/-- Enumerations and fixed records are documented by their form, not by their members. -/
inductive TypeForm where
  | plain
  | enumeration (constants : List EnumConstant)
  | record (fields : List RecordField)
deriving DecidableEq, Inhabited

structure TypeRecord where
  name : String
  moduleName : String
  doc : Option String := none
  /-- The identities of the declared bases. -/
  bases : List String := []
  /-- The identities along which attributes are looked up, the class itself first. -/
  mro : List String := []
  attributes : OrderedMap ClassAttribute := ∅
  form : TypeForm := .plain
deriving DecidableEq, Inhabited

structure SymbolTable where
  modules : List ModuleRecord := []
  /-- The classes under their identities. -/
  types : OrderedMap TypeRecord := ∅
deriving DecidableEq, Inhabited

namespace AttributeRecord

def ofData (owner value : String) : AttributeRecord :=
  { kind := .data, owner := some owner, value := some value }

def ofFunction (owner signature : String) : AttributeRecord :=
  { kind := .function, owner := some owner, signature := some signature }

def ofClass (owner typeId : String) : AttributeRecord :=
  { kind := .classType, owner := some owner, typeId := some typeId }

end AttributeRecord

namespace ClassAttribute

def ofField (value : String) : ClassAttribute :=
  { kind := .field, value := some value }

def ofProperty (getter setter deleter : Bool) : ClassAttribute :=
  { kind := .property, getter, setter, deleter }

def ofMethod (signature : String) (binding : Binding) : ClassAttribute :=
  { kind := .method, signature := some signature, binding }

end ClassAttribute

/-- The line that stands above the signature of a method. -/
def Binding.decorator? : Binding → Option String
  | .perInstance => none
  | .static => some "@staticmethod"
  | .perClass => some "@classmethod"

def TypeForm.isSpecial : TypeForm → Bool
  | .plain => false
  | .enumeration _ => true
  | .record _ => true

namespace TypeRecord

/-- The dotted identity of a class; a class without a module has its bare name. -/
def id (type : TypeRecord) : String :=
  if type.moduleName = "" then type.name else type.moduleName ++ "." ++ type.name

/-- Built-in classes are shown without their module. -/
def displayName (type : TypeRecord) : String :=
  if type.moduleName = "builtins" then type.name else type.id

/-- A class that derives from the root type alone. -/
def ofName (moduleName name : String) : TypeRecord :=
  let type : TypeRecord := { name, moduleName }
  { type with mro := [type.id, rootTypeId] }

end TypeRecord

namespace SymbolTable

/-- The first module with the given name. -/
def module? (table : SymbolTable) (name : String) : Option ModuleRecord :=
  table.modules.find? (·.name = name)

def type? (table : SymbolTable) (id : String) : Option TypeRecord :=
  table.types.get? id

def addModule (table : SymbolTable) (record : ModuleRecord) : SymbolTable :=
  { table with modules := table.modules ++ [record] }

/-- Puts a class under its own identity. -/
def addType (table : SymbolTable) (type : TypeRecord) : SymbolTable :=
  { table with types := table.types.insert type.id type }

end SymbolTable

end ApiReference

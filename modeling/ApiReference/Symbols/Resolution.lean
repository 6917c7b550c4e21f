import ApiReference.Symbols.Record

namespace ApiReference

/-! How a class finds its relatives in a symbol table: its declared bases, and the order
along which its attributes are resolved. -/

/-- A declared base of a class, with its record when the table has one. -/
structure Base where
  id : String
  record : Option TypeRecord
deriving DecidableEq

namespace Base

def displayName (base : Base) : String :=
  match base.record with
  | some type => type.displayName
  | none => (Text.after? "builtins." base.id).getD base.id

/-- The module of a base: of its record, or what stands before the last dot of its identity. -/
def moduleName? (base : Base) : Option String :=
  match base.record with
  | some type => some type.moduleName
  | none => (Text.splitLast? '.' base.id).map Prod.fst

def name (base : Base) : String :=
  match base.record with
  | some type => type.name
  | none => ((Text.splitLast? '.' base.id).map Prod.snd).getD base.id

end Base

namespace SymbolTable

def declaredBases (table : SymbolTable) (type : TypeRecord) : List Base :=
  type.bases.map fun id => ⟨id, table.type? id⟩

/-- The class that an identity in the resolution order of `type` stands for. The root type
is left out, and the identity of `type` itself is never looked up. -/
def ancestor? (table : SymbolTable) (type : TypeRecord) (id : String) : Option TypeRecord :=
  if id = rootTypeId then none
  else if id = type.id then some type
  else table.type? id

/-- The classes that give `type` its attributes, from the most basic one to the most
derived one. A class whose order resolves to nothing stands alone. -/
def resolutionOrder (table : SymbolTable) (type : TypeRecord) : List TypeRecord :=
  match type.mro.filterMap (table.ancestor? type) with
  | [] => [type]
  | ancestors => ancestors.reverse

end SymbolTable

end ApiReference

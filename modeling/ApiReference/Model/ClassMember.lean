import ApiReference.Docstring.Basic
import ApiReference.Ranking
import ApiReference.Symbols.Resolution

namespace ApiReference

/-! The members of a class: one for each name that the class or a class before it in the
resolution order declares. -/

/-- A member of a class as its nearest declaration has it. -/
structure ClassMember where
  name : String
  declaration : ClassAttribute
  /-- The classes that declare the name, the nearest one first. -/
  lineage : List TypeRecord
deriving DecidableEq

namespace ClassMember

def kind (member : ClassMember) : AttributeKind := member.declaration.kind

def doc (member : ClassMember) : Option String := member.declaration.doc

def docstring (member : ClassMember) : Docstring := .parse member.doc

def isConstructor (member : ClassMember) : Bool := member.name = constructorName

/-- Only methods have a signature. -/
def signature? (member : ClassMember) : Option String :=
  if member.kind = .method then member.declaration.signature else none

def decorator? (member : ClassMember) : Option String :=
  if member.kind = .method then member.declaration.binding.decorator? else none

/-- The accessors that a property has. -/
def accessors (member : ClassMember) : List String :=
  (if member.declaration.getter then ["getter"] else []) ++
    (if member.declaration.setter then ["setter"] else []) ++
    (if member.declaration.deleter then ["deleter"] else [])

theorem accessors_subset (member : ClassMember) : member.accessors ⊆ ["getter", "setter", "deleter"] := by
  unfold accessors
  cases member.declaration.getter <;> cases member.declaration.setter <;> cases member.declaration.deleter <;> simp

def definedIn? (member : ClassMember) : Option TypeRecord := member.lineage.head?

end ClassMember

/-- What is known of a name while the classes are gone through, the most basic one first. -/
structure Inherited where
  declaration : ClassAttribute
  lineage : List TypeRecord
deriving DecidableEq

namespace Inherited

/-- Reserved names are left out, except that of the constructor. -/
def isDocumented (name : String) : Bool :=
  !isReservedName name || name = constructorName

/-- A declaration hides those of the classes before it and keeps their lineage. -/
def declare (type : TypeRecord) (known : OrderedMap Inherited)
    (entry : String × ClassAttribute) : OrderedMap Inherited :=
  if isDocumented entry.1 then
    known.upsert entry.1 fun earlier =>
      ⟨entry.2, type :: (earlier.map (·.lineage)).getD []⟩
  else known

/-- All names that the classes declare, in the order in which they first come. -/
def ofOrder (order : List TypeRecord) : OrderedMap Inherited :=
  order.foldl (fun known type => type.attributes.entries.foldl (declare type) known) ∅

/-- Public names come before the others, and each of the two in the order of characters. -/
def nameBefore (a b : String) : Bool :=
  if isPrivateName a = isPrivateName b then a ≤ b else isPrivateName b

def publicFirst (known : OrderedMap Inherited) : List (String × Inherited) :=
  rank (fun a b => nameBefore a.1 b.1) known.entries

end Inherited

namespace ClassMember

/-- The constructor, then fields, properties and methods, each in the order given. -/
def grouped (members : List ClassMember) : List ClassMember :=
  let others := members.filter fun member => !member.isConstructor
  members.filter (·.isConstructor) ++ others.filter (·.kind = .field) ++
    others.filter (·.kind = .property) ++ others.filter (·.kind = .method)

end ClassMember

/-- The members of a class, in the order in which they are documented. -/
def SymbolTable.classMembers (table : SymbolTable) (type : TypeRecord) : List ClassMember :=
  ClassMember.grouped
    ((Inherited.publicFirst (Inherited.ofOrder (table.resolutionOrder type))).map
      fun (name, inherited) => ⟨name, inherited.declaration, inherited.lineage⟩)

end ApiReference

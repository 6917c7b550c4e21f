import ApiReference.Path.Basic

namespace ApiReference

/-! The limits of a file tree. A text that is refused as a path leads nowhere, and no step of it
is taken; a name that is too long stops a path only where it stands. -/

structure Limits where
  /-- The most bytes that a name may take. -/
  name : Option Nat
  /-- The most bytes that the text of a path may take. -/
  path : Option Nat
  refusesNul : Bool
deriving DecidableEq

namespace Limits

def unlimited : Limits where
  name := none
  path := none
  refusesNul := false

/-- The limits of a file system in use. -/
def usual : Limits where
  name := some 255
  path := some 4095
  refusesNul := true

def within (size : Nat) : Option Nat → Bool
  | none => true
  | some most => size ≤ most

def admitsText (limits : Limits) (text : String) : Bool :=
  !(limits.refusesNul && text.toList.contains '\x00')

def admitsName (limits : Limits) (name : String) : Bool := within name.utf8ByteSize limits.name

def admits (limits : Limits) (path : Path) : Bool :=
  within path.text.utf8ByteSize limits.path && limits.admitsText path.text

end Limits

end ApiReference

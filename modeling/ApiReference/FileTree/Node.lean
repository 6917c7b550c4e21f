namespace ApiReference

/-! Files and directories as values. Names are kept as texts; which of them stand for a name that is
no text is told by the tree as a whole. -/

/-- A file with its text, or a directory with its entries in the order of their names. -/
inductive Node where
  | file (text : String)
  | directory (entries : List (String × Node))

namespace Node

instance : Inhabited Node := ⟨.directory []⟩

abbrev Entries := List (String × Node)

/-- The names from the top down to a node. -/
abbrev Location := List String

def isDirectory : Node → Bool
  | .directory _ => true
  | .file _ => false

def entries : Node → Entries
  | .directory entries => entries
  | .file _ => []

def insertEntry (name : String) (node : Node) : Entries → Entries
  | [] => [(name, node)]
  | (other, child) :: rest =>
      if name = other then (name, node) :: rest
      else if name < other then (name, node) :: (other, child) :: rest
      else (other, child) :: insertEntry name node rest

def eraseEntry (name : String) (entries : Entries) : Entries :=
  entries.filter fun entry => entry.1 ≠ name

/-- Changes one entry; a change to nothing takes it away. -/
def alterEntry (name : String) (change : Option Node → Option Node) (entries : Entries) : Entries :=
  match change (entries.lookup name) with
  | some node => insertEntry name node entries
  | none => eraseEntry name entries

def get? : Location → Node → Option Node
  | [], node => some node
  | name :: rest, .directory entries => (entries.lookup name).bind (get? rest)
  | _ :: _, .file _ => none

/-- Changes what is at a location. Nothing changes when its parent is no directory. -/
def alter (change : Option Node → Option Node) : Location → Option Node → Option Node
  | [], node => change node
  | name :: rest, some (.directory entries) =>
      some (.directory (alterEntry name (alter change rest) entries))
  | _ :: _, node => node

def put (root : Node) (location : Location) (node : Node) : Node :=
  (alter (fun _ => some node) location (some root)).getD root

def erase (root : Node) (location : Location) : Node :=
  (alter (fun _ => none) location (some root)).getD (.directory [])

end Node

end ApiReference

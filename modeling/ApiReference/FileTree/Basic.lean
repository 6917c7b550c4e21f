import ApiReference.Failure
import ApiReference.FileTree.Limits
import ApiReference.FileTree.Node

namespace ApiReference

/-! A file tree and the operations on it. Paths are followed step by step: each step needs a
directory to start from, and a step up goes to the directory that holds it. -/

structure FileTree where
  root : Node
  /-- The directory from which relative paths start. -/
  here : Node.Location := []
  limits : Limits
  /-- The names that are no text. Each stands in the tree as a text that nothing else is named by, in
  the place that the name has in the order and with its dots. -/
  garbled : List String := []

namespace FileTree

def isDirectoryAt (root : Node) (location : Node.Location) : Bool :=
  match root.get? location with
  | some node => node.isDirectory
  | none => false

def step? (tree : FileTree) (location : Node.Location) : Component → Option Node.Location
  | .root => some []
  | .current => if isDirectoryAt tree.root location then some location else none
  | .parent => if isDirectoryAt tree.root location then some location.dropLast else none
  | .name name =>
      if isDirectoryAt tree.root location && tree.limits.admitsName name then
        some (location ++ [name])
      else none

/-- The location a path leads to, whether or not there is something. -/
def locate? (tree : FileTree) (path : Path) : Option Node.Location :=
  if tree.limits.admits path then
    match path.components with
    | [] => none
    | components => components.foldlM tree.step? tree.here
  else none

def node? (tree : FileTree) (path : Path) : Option Node := do
  let node ← tree.root.get? (← tree.locate? path)
  if path.asksDirectory && !node.isDirectory then none else some node

def contains (tree : FileTree) (path : Path) : Bool := (tree.node? path).isSome

def isFile (tree : FileTree) (path : Path) : Bool :=
  match tree.node? path with
  | some (.file _) => true
  | _ => false

def isDirectory (tree : FileTree) (path : Path) : Bool :=
  match tree.node? path with
  | some (.directory _) => true
  | _ => false

def read? (tree : FileTree) (path : Path) : Option String :=
  match tree.node? path with
  | some (.file text) => some text
  | _ => none

/-- The absolute path without steps up of something that exists. -/
def absolute? (tree : FileTree) (path : Path) : Option Path := do
  let _ ← tree.node? path
  return ⟨"/" ++ "/".intercalate (← tree.locate? path)⟩

end FileTree

/-- Work on a file tree. What was done before a failure stays done. -/
abbrev FileWork := ExceptT Failure (StateM FileTree)

namespace FileWork

/-- Work that only looks at the tree. -/
def look {α : Type} (read : FileTree → Except Failure α) : FileWork α := do
  match read (← get) with
  | .ok value => return value
  | .error failure => throw failure

/-- The value, or the given failure when there is none. -/
def require {α : Type} (failure : Failure) : Option α → FileWork α
  | some value => return value
  | none => throw failure

/-- Fails on a path that the limits of the tree refuse. -/
def checkPath (path : Path) : FileWork Unit := do
  if !(← get).limits.admits path then throw .fileTree

def setRoot (root : Node) : FileWork Unit := modify fun tree => { tree with root }

/-- Writes a file into a directory that is there. A directory is not overwritten. -/
def write (path : Path) (text : String) : FileWork Unit := do
  let tree ← get
  let location ← require .fileTree (tree.locate? path)
  if path.asksDirectory || path.fileName?.isNone || tree.isDirectory path then throw .fileTree
  setRoot (tree.root.put location (.file text))

/-- Takes one step of a path and makes the directory it leads to if there is nothing. -/
def enter (location : Node.Location) (component : Component) : FileWork Node.Location := do
  let tree ← get
  let next ← require .fileTree (tree.step? location component)
  match tree.root.get? next with
  | none => setRoot (tree.root.put next (.directory []))
  | some node => if !node.isDirectory then throw .fileTree
  return next

/-- Makes all directories on the way that are missing. -/
def enterAll (components : List Component) : FileWork Unit := do
  let _ ← components.foldlM enter (← get).here

/-- A path that ends in a single dot names a directory that has to be there already. -/
def endsInCurrent (path : Path) : Bool :=
  (path.pieces.filter (· ≠ "")).getLast? = some "."

def createDirectories (path : Path) : FileWork Unit := do
  checkPath path
  if endsInCurrent path && !(← get).isDirectory path then
    enterAll path.components.dropLast
    throw .fileTree
  else enterAll path.components

/-- Makes the directory that holds a path. -/
def createParent (path : Path) : FileWork Unit := do
  checkPath path.parent
  enterAll path.components.dropLast

/-- Removes a directory after what it holds. The path is followed once more for the directory
itself, so one whose path leads through what it held stays behind empty. -/
def removeDirectory (path : Path) (location : Node.Location) : FileWork Unit := do
  setRoot ((← get).root.put location (.directory []))
  if endsInCurrent path then throw .fileTree
  if (← get).isDirectory path then setRoot ((← get).root.erase location)

/-- Removes a file, or a directory with all it holds. -/
def remove (path : Path) : FileWork Unit := do
  let tree ← get
  let location ← require .fileTree (tree.locate? path)
  match ← require .fileTree (tree.node? path) with
  | .file _ => setRoot (tree.root.erase location)
  | .directory _ => removeDirectory path location

end FileWork

end ApiReference

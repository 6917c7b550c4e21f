import ApiReference.Text.Line

namespace ApiReference

/-! Paths. A path is kept as the text it was made of and is compared by its components. -/

inductive Component where
  | root
  | current
  | parent
  | name (text : String)
deriving DecidableEq

def Component.text : Component → String
  | .root => "/"
  | .current => "."
  | .parent => ".."
  | .name text => text

structure Path where
  text : String
deriving DecidableEq, Inhabited

namespace Path

def isAbsolute (path : Path) : Bool := Text.startsWith "/" path.text

/-- Pieces that stand for no step: those of repeated slashes and single dots. -/
def isIdle (piece : String) : Bool := piece = "" || piece = "."

def pieces (path : Path) : List String := Text.splitOn '/' path.text

def pieceComponent (piece : String) : Component :=
  if piece = ".." then .parent else .name piece

/-- The first component, for the paths that start at the root or with a single dot. -/
def start (path : Path) : List Component :=
  if path.isAbsolute then [.root]
  else if path.pieces.head? = some "." then [.current]
  else []

def components (path : Path) : List Component :=
  path.start ++ (path.pieces.filter (!isIdle ·)).map pieceComponent

/-- Paths are the same when their components are. -/
def same (a b : Path) : Bool := a.components = b.components

/-- Appends a part. An absolute part takes the place of the path. -/
def push (path : Path) (part : String) : Path :=
  if Text.startsWith "/" part then ⟨part⟩
  else if path.text = "" || path.text.toList.getLast? = some '/' then ⟨path.text ++ part⟩
  else ⟨path.text ++ "/" ++ part⟩

def pushAll (path : Path) (parts : List String) : Path := parts.foldl push path

def join (path other : Path) : Path := path.push other.text

/-- The components that follow those of `base`. -/
def componentsAfter? (base path : Path) : Option (List Component) :=
  if base.components.isPrefixOf path.components then
    some (path.components.drop base.components.length)
  else none

def startsWith (base path : Path) : Bool := (componentsAfter? base path).isSome

/-- Drops the pieces of the first `count` steps. -/
def dropSteps : Nat → List String → List String
  | 0, pieces => pieces
  | _, [] => []
  | count + 1, piece :: rest =>
      if isIdle piece then dropSteps (count + 1) rest else dropSteps count rest

/-- The text of `path` after `base`, without idle pieces at its ends. -/
def relativeTo? (base path : Path) : Option Path :=
  if startsWith base path then
    let steps := base.components.length - base.start.length
    let rest := dropSteps steps path.pieces
    let rest := if base.components.isEmpty then rest else rest.dropWhile isIdle
    some ⟨"/".intercalate (rest.reverse.dropWhile isIdle).reverse⟩
  else none

/-- The name that a path ends with; there is none after a step up. -/
def fileName? (path : Path) : Option String :=
  match path.components.getLast? with
  | some (.name text) => some text
  | _ => none

/-- The path without its last step. -/
def parent (path : Path) : Path :=
  match (((path.pieces.reverse.dropWhile isIdle).drop 1).dropWhile isIdle).reverse with
  | [] => ⟨String.join (path.components.dropLast.map Component.text)⟩
  | pieces => ⟨"/".intercalate pieces⟩

/-- A name is cut at its last dot, unless the name starts with that dot. -/
def cutName (name : String) : String × Option String :=
  match Text.splitLast? '.' name with
  | some (stem, extension) => if stem = "" then (name, none) else (stem, some extension)
  | none => (name, none)

def extension? (path : Path) : Option String := path.fileName?.bind fun name => (cutName name).2

/-- Whether the text ends in a way that only a directory can be meant. -/
def asksDirectory (path : Path) : Bool :=
  match path.pieces.getLast? with
  | some piece => isIdle piece
  | none => true

end Path

end ApiReference

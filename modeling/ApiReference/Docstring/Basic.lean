import ApiReference.Docstring.Section
import ApiReference.Docstring.HyphenList

namespace ApiReference

/-! Docstrings: a description and tagged sections, each present only with content. -/

structure Docstring where
  description : Option String := none
  parameters : Option HyphenList := none
  returns : Option String := none
  yields : Option String := none
  exceptions : Option HyphenList := none
deriving DecidableEq, Inhabited

namespace Docstring

/-- The lines found so far for each section. -/
structure Bodies where
  description : List String := []
  parameters : List String := []
  returns : List String := []
  yields : List String := []
  exceptions : List String := []

def Bodies.get (bodies : Bodies) : Section → List String
  | .description => bodies.description
  | .parameters => bodies.parameters
  | .returns => bodies.returns
  | .yields => bodies.yields
  | .exceptions => bodies.exceptions

def Bodies.set (bodies : Bodies) (lines : List String) : Section → Bodies
  | .description => { bodies with description := lines }
  | .parameters => { bodies with parameters := lines }
  | .returns => { bodies with returns := lines }
  | .yields => { bodies with yields := lines }
  | .exceptions => { bodies with exceptions := lines }

/-- A reading goes through the lines with the section that is open, if a known one is. -/
structure Reading where
  current : Option Section
  bodies : Bodies

def Reading.start : Reading := ⟨some .description, {}⟩

/-- A section opened again starts anew; only the description goes on. -/
def Reading.openSection (reading : Reading) (name : String) : Reading :=
  match Section.ofName? name with
  | none => { reading with current := none }
  | some .description => { reading with current := some .description }
  | some tagged => ⟨some tagged, reading.bodies.set [] tagged⟩

/-- Lines under an unknown header are dropped. -/
def Reading.addLine (reading : Reading) (line : String) : Reading :=
  match reading.current with
  | none => reading
  | some current =>
      { reading with bodies := reading.bodies.set (reading.bodies.get current ++ [line]) current }

def Reading.line (reading : Reading) (line : String) : Reading :=
  match Text.headerName? line with
  | some name => reading.openSection name
  | none => reading.addLine line

def nonEmpty? (text : String) : Option String :=
  if text = "" then none else some text

/-- Lines as text, with their breaks. -/
def block? (lines : List String) : Option String :=
  nonEmpty? (Text.trim ("\n".intercalate lines))

/-- The lines that are not blank, trimmed, as one line. -/
def flat? (lines : List String) : Option String :=
  nonEmpty? (" ".intercalate ((lines.map Text.trim).filter (· ≠ "")))

def list? (lines : List String) : Option HyphenList :=
  let list := HyphenList.parse (Text.trim ("\n".intercalate lines))
  if list.isEmpty then none else some list

def ofBodies (bodies : Bodies) : Docstring where
  description := block? bodies.description
  parameters := list? bodies.parameters
  returns := flat? bodies.returns
  yields := flat? bodies.yields
  exceptions := list? bodies.exceptions

/-- Reads a docstring; none at all, or a blank one, has no section. -/
def parse : Option String → Docstring
  | none => {}
  | some text => ofBodies ((Text.lines text).foldl Reading.line Reading.start).bodies

def has (doc : Docstring) : Section → Bool
  | .description => doc.description.isSome
  | .parameters => doc.parameters.isSome
  | .returns => doc.returns.isSome
  | .yields => doc.yields.isSome
  | .exceptions => doc.exceptions.isSome

/-- The sections with content, in the order in which they are rendered. -/
def sections (doc : Docstring) : List Section :=
  Section.all.filter doc.has

def isEmpty (doc : Docstring) : Bool :=
  doc.sections.isEmpty

/-- The text of one parameter. -/
def parameter? (doc : Docstring) (name : String) : Option String :=
  doc.parameters.bind (·.get? name)

end Docstring

end ApiReference

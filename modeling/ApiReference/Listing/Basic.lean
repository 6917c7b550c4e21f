import ApiReference.Listing.Span
import ApiReference.Model.Basic
import ApiReference.Text.Markup

namespace ApiReference.Listing

/-! The listing of a documentation model: every module with its members, and classes with
their resolved members and where these come from. -/

def summaryLength : Nat := 72

def plain (text : String) : StyledText := [{ text }]

def endLine : StyledText := plain "\n"

def heading (text : String) : StyledText := [{ text, style := some { colour := .cyan, bold := true } }]

def keyword (text : String) : StyledText := [{ text, style := some { colour := .green } }]

/-- A dimmed line, indented by two blanks for each level. -/
def dimmed (level : Nat) (text : String) : StyledText :=
  { text := String.join (List.replicate level "  ") ++ text
    style := some { colour := .white, italic := true } } :: endLine

/-- The summary of a description; nothing when there is none. -/
def summary (level : Nat) (description : Option String) : StyledText :=
  let text := Text.summary summaryLength (description.getD "")
  if text = "" then [] else dimmed level text

/-- A recorded value behind its name. -/
def assigned : Option String → String
  | some value => " = " ++ value
  | none => ""

def signature (recorded : Option String) : String := recorded.getD "(...)"

/-- The classes that declare a member, the nearest one first. -/
def origin (lineage : List TypeRecord) : StyledText :=
  if lineage.isEmpty then []
  else
    [{ text := "  <- " ++ " <- ".intercalate (lineage.map (·.name))
       style := some { colour := .magenta } }]

def kindName : AttributeKind → String
  | .field => "field"
  | .property => "property"
  | .method => "method"

def classMember (member : ClassMember) : StyledText :=
  let detail := match member.kind with
    | .field => assigned member.declaration.value
    | .property => " [" ++ ", ".intercalate member.accessors ++ "]"
    | .method => signature member.signature?
  plain "    " ++ keyword (kindName member.kind) ++ plain (" " ++ member.name ++ detail) ++
    origin member.lineage ++ endLine

def bases (bases : List Base) : StyledText :=
  if bases.isEmpty then []
  else dimmed 2 ("bases: " ++ ", ".intercalate (bases.map (·.displayName)))

def classModel (model : ClassModel) : StyledText :=
  bases model.bases ++
    model.constants.flatMap (fun constant =>
      plain ("    " ++ constant.name ++ " = " ++ constant.value) ++ endLine) ++
    model.recordFields.flatMap (fun field => plain ("    " ++ field.name) ++ endLine) ++
    model.members.flatMap classMember

def member (member : Member) : StyledText :=
  let line (kind detail : String) : StyledText :=
    plain "  " ++ keyword kind ++ plain (" " ++ member.name ++ detail) ++ endLine
  match member.kind with
  | .field => line "field" (assigned member.value)
  | .function =>
      line "function" (signature member.signature) ++ summary 2 member.docstring.description
  | .classType model =>
      line "class" (member.signature.getD "") ++ summary 2 member.docstring.description ++
        classModel model

def moduleModel (model : ModuleModel) : StyledText :=
  heading "module" ++ plain (" " ++ model.name) ++ endLine ++
    summary 1 model.docstring.description ++
    (if model.isEmpty then dimmed 1 "(no members)" else []) ++
    model.members.flatMap member

/-- All modules, with an empty line after each. -/
def ofModels (models : List ModuleModel) : StyledText :=
  models.flatMap fun model => moduleModel model ++ endLine

end ApiReference.Listing

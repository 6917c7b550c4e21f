namespace ApiReference

/-! JSON values as they are written: numbers keep their literal, objects keep every
member in order, repeated names included. -/

/-- A string holds a text, or `none` when its escapes name a surrogate without its
partner, which spells no text. The names of members are strings of the same kind. -/
inductive Json where
  | null
  | bool (value : Bool)
  | number (literal : String)
  | string (text : Option String)
  | array (items : List Json)
  | object (members : List (Option String × Json))
deriving Inhabited

namespace Json

/-- The string of a text. -/
def ofText (text : String) : Json := .string (some text)

def ofTexts (texts : List String) : Json := .array (texts.map ofText)

/-- The object of members with proper names. -/
def ofMembers (members : List (String × Json)) : Json :=
  .object (members.map fun (name, value) => (some name, value))

end Json

end ApiReference

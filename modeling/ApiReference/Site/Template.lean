namespace ApiReference

/-! Templates: texts with named slots. Values are put in as they are and never read again. -/

inductive Piece where
  | text (text : String)
  | slot (name : String)
deriving DecidableEq

abbrev Template := List Piece

namespace Template

abbrev Values := List (String × String)

def fillPiece? (values : Values) : Piece → Option String
  | .text text => some text
  | .slot name => values.lookup name

/-- Fills every slot. A slot without a value makes the whole template fail. -/
def fill? (template : Template) (values : Values) : Option String :=
  (template.mapM (fillPiece? values)).map String.join

end Template

end ApiReference

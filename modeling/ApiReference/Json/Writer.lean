import ApiReference.Json.Value
import ApiReference.Text.Markup

namespace ApiReference.Json

/-! Writing JSON text over several lines, indented by two blanks a level. -/

/-- Quotes, backslashes and the control characters below the blank are escaped. -/
def escape (c : Char) : List Char :=
  match c with
  | '"' => ['\\', '"']
  | '\\' => ['\\', '\\']
  | '\u0008' => ['\\', 'b']
  | '\u000c' => ['\\', 'f']
  | '\n' => ['\\', 'n']
  | '\r' => ['\\', 'r']
  | '\t' => ['\\', 't']
  | c =>
      if c < ' ' then
        ['\\', 'u', '0', '0', Chars.hexDigit (c.toNat / 16), Chars.hexDigit (c.toNat % 16)]
      else [c]

/-- A string without a text is written as a surrogate on its own. -/
def quote : Option String → String
  | some text => "\"" ++ String.ofList (text.toList.flatMap escape) ++ "\""
  | none => "\"\\ud800\""

def indent (level : Nat) : String := String.ofList (List.replicate (2 * level) ' ')

mutual

/-- The text of a value that stands on a line of the given level. -/
def pretty (level : Nat) : Json → String
  | null => "null"
  | bool true => "true"
  | bool false => "false"
  | number literal => literal
  | string text => quote text
  | array [] => "[]"
  | array (item :: items) =>
      "[\n" ++ prettyItems (level + 1) (item :: items) ++ "\n" ++ indent level ++ "]"
  | object [] => "\x7b\x7d"
  | object (member :: members) =>
      "\x7b\n" ++ prettyMembers (level + 1) (member :: members) ++ "\n" ++ indent level ++ "\x7d"

def prettyItems (level : Nat) : List Json → String
  | [] => ""
  | [item] => indent level ++ pretty level item
  | item :: items => indent level ++ pretty level item ++ ",\n" ++ prettyItems level items

def prettyMembers (level : Nat) : List (Option String × Json) → String
  | [] => ""
  | [(name, value)] => indent level ++ quote name ++ ": " ++ pretty level value
  | (name, value) :: members =>
      indent level ++ quote name ++ ": " ++ pretty level value ++ ",\n" ++
        prettyMembers level members

end

end ApiReference.Json

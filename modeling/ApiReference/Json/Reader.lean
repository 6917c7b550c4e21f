import ApiReference.Json.Value

namespace ApiReference.Json

/-! Reading JSON text: the grammar of RFC 8259 and nothing beside it. -/

namespace Reader

def isSpace (c : Char) : Bool := c == ' ' || c == '\n' || c == '\t' || c == '\r'

def skipSpace (cs : List Char) : List Char := cs.dropWhile isSpace

def isDigit (c : Char) : Bool := '0' ≤ c && c ≤ '9'

def hexValue? (c : Char) : Option Nat :=
  if '0' ≤ c && c ≤ '9' then some (c.toNat - '0'.toNat)
  else if 'a' ≤ c && c ≤ 'f' then some (c.toNat - 'a'.toNat + 10)
  else if 'A' ≤ c && c ≤ 'F' then some (c.toNat - 'A'.toNat + 10)
  else none

/-- What a string is made of, before surrogates find their partners. -/
inductive Unit where
  | scalar (c : Char)
  | leading (code : Nat)
  | trailing (code : Nat)

def Unit.ofCode (code : Nat) : Unit :=
  if 0xd800 ≤ code ∧ code < 0xdc00 then .leading code
  else if 0xdc00 ≤ code ∧ code < 0xe000 then .trailing code
  else .scalar (Char.ofNat code)

def unicodeEscape? (a b c d : Char) : Option Unit := do
  let a ← hexValue? a
  let b ← hexValue? b
  let c ← hexValue? c
  let d ← hexValue? d
  return .ofCode (((a * 16 + b) * 16 + c) * 16 + d)

/-- The character named by the letter after a backslash. -/
def shortEscape? : Char → Option Char
  | '"' => some '"'
  | '\\' => some '\\'
  | '/' => some '/'
  | 'b' => some '\u0008'
  | 'f' => some '\u000c'
  | 'n' => some '\n'
  | 'r' => some '\r'
  | 't' => some '\t'
  | _ => none

/-- The units up to the closing quote, and what follows it. -/
def units? : List Char → Option (List Unit × List Char)
  | [] => none
  | '"' :: rest => some ([], rest)
  | '\\' :: 'u' :: a :: b :: c :: d :: rest => do
      let unit ← unicodeEscape? a b c d
      let (units, rest) ← units? rest
      return (unit :: units, rest)
  | '\\' :: letter :: rest => do
      let c ← shortEscape? letter
      let (units, rest) ← units? rest
      return (.scalar c :: units, rest)
  | c :: rest =>
      if c < ' ' || c == '\\' then none
      else do
        let (units, rest) ← units? rest
        return (.scalar c :: units, rest)

/-- The text of the units; a surrogate without its partner makes it none. -/
def spelling? : List Unit → Option (List Char)
  | [] => some []
  | .scalar c :: rest => (spelling? rest).map (c :: ·)
  | .leading high :: .trailing low :: rest =>
      (spelling? rest).map
        (Char.ofNat (0x10000 + (high - 0xd800) * 0x400 + (low - 0xdc00)) :: ·)
  | _ => none

/-- A string whose opening quote has been read. -/
def string? (cs : List Char) : Option (Option String × List Char) :=
  (units? cs).map fun (units, rest) => ((spelling? units).map String.ofList, rest)

/-- One or more digits. -/
def digits? (cs : List Char) : Option (List Char × List Char) :=
  match cs.takeWhile isDigit with
  | [] => none
  | digits => some (digits, cs.dropWhile isDigit)

/-- A whole number: no zero before another digit. -/
def whole? : List Char → Option (List Char × List Char)
  | '0' :: rest => some (['0'], rest)
  | cs => digits? cs

def fraction? : List Char → Option (List Char × List Char)
  | '.' :: rest => (digits? rest).map fun (digits, rest) => ('.' :: digits, rest)
  | cs => some ([], cs)

def exponent? : List Char → Option (List Char × List Char)
  | mark :: rest =>
      if mark = 'e' ∨ mark = 'E' then
        match rest with
        | sign :: more =>
            if sign = '+' ∨ sign = '-' then
              (digits? more).map fun (digits, rest) => (mark :: sign :: digits, rest)
            else (digits? rest).map fun (digits, rest) => (mark :: digits, rest)
        | [] => none
      else some ([], mark :: rest)
  | [] => some ([], [])

def unsigned? (cs : List Char) : Option (List Char × List Char) := do
  let (whole, cs) ← whole? cs
  let (fraction, cs) ← fraction? cs
  let (exponent, cs) ← exponent? cs
  return (whole ++ fraction ++ exponent, cs)

def number? : List Char → Option (String × List Char)
  | '-' :: rest => (unsigned? rest).map fun (literal, rest) => (String.ofList ('-' :: literal), rest)
  | cs => (unsigned? cs).map fun (literal, rest) => (String.ofList literal, rest)

mutual

/-- A value with blanks before it. The first argument bounds the calls that are nested
or chained; two for each character are always enough. -/
def value? : Nat → List Char → Option (Json × List Char)
  | 0, _ => none
  | calls + 1, cs =>
      match skipSpace cs with
      | 'n' :: 'u' :: 'l' :: 'l' :: rest => some (.null, rest)
      | 't' :: 'r' :: 'u' :: 'e' :: rest => some (.bool true, rest)
      | 'f' :: 'a' :: 'l' :: 's' :: 'e' :: rest => some (.bool false, rest)
      | '"' :: rest => (string? rest).map fun (text, rest) => (.string text, rest)
      | '[' :: rest =>
          match skipSpace rest with
          | ']' :: rest => some (.array [], rest)
          | rest => (items? calls rest).map fun (items, rest) => (.array items, rest)
      | '\x7b' :: rest =>
          match skipSpace rest with
          | '\x7d' :: rest => some (.object [], rest)
          | rest => (members? calls rest).map fun (members, rest) => (.object members, rest)
      | cs => (number? cs).map fun (literal, rest) => (.number literal, rest)

/-- The items of an array that has any, with its closing bracket. -/
def items? : Nat → List Char → Option (List Json × List Char)
  | 0, _ => none
  | calls + 1, cs => do
      let (item, rest) ← value? calls cs
      match skipSpace rest with
      | ']' :: rest => return ([item], rest)
      | ',' :: rest =>
          let (items, rest) ← items? calls rest
          return (item :: items, rest)
      | _ => none

/-- The members of an object that has any, with its closing brace. -/
def members? : Nat → List Char → Option (List (Option String × Json) × List Char)
  | 0, _ => none
  | calls + 1, cs =>
      match skipSpace cs with
      | '"' :: rest => do
          let (name, rest) ← string? rest
          match skipSpace rest with
          | ':' :: rest =>
              let (value, rest) ← value? calls rest
              match skipSpace rest with
              | '\x7d' :: rest => return ([(name, value)], rest)
              | ',' :: rest =>
                  let (members, rest) ← members? calls rest
                  return ((name, value) :: members, rest)
              | _ => none
          | _ => none
      | _ => none

end

end Reader

/-- The value of a JSON text, which holds nothing beside it but blanks. -/
def parse? (text : String) : Option Json :=
  let cs := text.toList
  match Reader.value? (2 * cs.length + 2) cs with
  | some (value, rest) => if Reader.skipSpace rest = [] then some value else none
  | none => none

end ApiReference.Json

import ApiReference.Json.Value
import ApiReference.OrderedMap

namespace ApiReference.Json

/-! Typed parts of a JSON value. A record may be written as an object or as the
array of its fields. -/

variable {α : Type}

def text? : Json → Option String
  | .string text => text
  | _ => none

/-- A text that may be left out: `null` stands for its absence. -/
def optionalText? : Json → Option (Option String)
  | .null => some none
  | json => json.text?.map some

def flag? : Json → Option Bool
  | .bool value => some value
  | _ => none

def list? (decode : Json → Option α) : Json → Option (List α)
  | .array items => items.mapM decode
  | _ => none

/-- The values of an object under its names. A repeated name keeps its first place
and its last value. -/
def map? (decode : Json → Option α) : Json → Option (OrderedMap α)
  | .object members => do
      let entries ← members.mapM fun (name, value) => do
        return (← name, ← decode value)
      return OrderedMap.ofList entries
  | _ => none

/-- The name of a choice without data: a string, or an object that gives it `null`. -/
def choice? : Json → Option String
  | .string text => text
  | .object [(name, .null)] => name
  | _ => none

/-- The fields of a record. An object may hold other members, which are left out, but
no field twice; an array holds the fields in their declared order and may stop early. -/
def record? (declared : List String) : Json → Option (List (String × Json))
  | .array items =>
      if items.length ≤ declared.length then some (declared.zip items) else none
  | .object members => do
      let named ← members.mapM fun (name, value) => name.map (·, value)
      let fields := named.filter fun (name, _) => name ∈ declared
      if (fields.map Prod.fst).Nodup then return fields else none
  | _ => none

def required? (fields : List (String × Json)) (name : String) (decode : Json → Option α) :
    Option α :=
  (fields.lookup name).bind decode

def withDefault? (fields : List (String × Json)) (name : String) (decode : Json → Option α)
    (default : α) : Option α :=
  match fields.lookup name with
  | some value => decode value
  | none => some default

end ApiReference.Json

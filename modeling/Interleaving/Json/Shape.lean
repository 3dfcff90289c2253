import Interleaving.Json.Value

/-!
# Shapes of JSON values

How the program's types stand in JSON.  A record is an object with named fields,
or an array of its fields in order.  A choice is a name, alone or as the only key
of an object that holds its parts.  A table is an object whose keys are numbers.
-/

namespace Interleaving.Json

/-- The string that holds a text without characters that need an escape. -/
def name (text : String) : Json := .string text.toList

/-- A natural number in decimal digits. -/
def nat (n : Nat) : Json := .number (Number.digits n)

/-- A natural number, or null without one. -/
def optionalNat : Option Nat → Json
  | none => .null
  | some n => nat n

/-- An object with these fields. -/
def record (fields : List (String × Json)) : Json :=
  .object (fields.map fun (field, v) => (field.toList, v))

/-- A choice with parts. -/
def choice (text : String) (parts : List (String × Json)) : Json :=
  record [(text, record parts)]

/-- An object whose keys are numbers. -/
def table (entries : List (Nat × Json)) : Json :=
  .object (entries.map fun (key, v) => (Number.digits key, v))

/-- Reads a natural number. -/
def nat? : Json → Option Nat
  | .number literal => Number.natural? literal
  | _ => none

/-- Reads a natural number or null. -/
def optionalNat? : Json → Option (Option Nat)
  | .null => some none
  | v => v.nat?.map some

/-- Reads a truth value. -/
def bool? : Json → Option Bool
  | .bool value => some value
  | _ => none

/-- Reads the elements of an array. -/
def list? {α : Type} (element? : Json → Option α) : Json → Option (List α)
  | .array elements => elements.mapM element?
  | _ => none

/-- The members of an object under the texts that its keys stand for. -/
def named? (members : List (List Char × Json)) : Option (List (String × Json)) :=
  members.mapM fun (raw, v) => (Quoted.decode? raw).map (·, v)

/-- The value of a field: none if it is missing, a failure if it is repeated. -/
def field? (members : List (String × Json)) (field : String) : Option (Option Json) :=
  match members.filter (·.1 = field) with
  | [] => some none
  | [(_, v)] => some (some v)
  | _ => none

/-- The values of some fields, in order.  Other members of an object are ignored;
an array has no other elements, and no fewer than `least`. -/
def fieldsFrom? (least : Nat) (fields : List String) : Json → Option (List (Option Json))
  | .object members => do
    let members ← named? members
    fields.mapM (field? members)
  | .array elements =>
    if least ≤ elements.length ∧ elements.length ≤ fields.length then
      some (elements.map some ++ List.replicate (fields.length - elements.length) none)
    else none
  | _ => none

/-- The values of some fields, in order; an array holds all of them. -/
def fields? (fields : List String) (v : Json) : Option (List (Option Json)) :=
  v.fieldsFrom? fields.length fields

/-- The name of a choice and what comes with it. -/
def choice? : Json → Option (String × Option Json)
  | .string raw => (Quoted.decode? raw).map (·, none)
  | .object [(raw, v)] => (Quoted.decode? raw).map (·, some v)
  | _ => none

/-- Whether what comes with a choice without parts is as it should be. -/
def isNothing : Option Json → Bool
  | none => true
  | some .null => true
  | some _ => false

/-- Reads the entries of a table in the order of the text.  A key is the digits of
a number as they stand, without escapes. -/
def table? {α : Type} (value? : Json → Option α) : Json → Option (List (Nat × α))
  | .object members =>
    members.mapM fun (raw, v) => do
      let key ← Number.natural? raw
      let x ← value? v
      return (key, x)
  | _ => none

end Interleaving.Json

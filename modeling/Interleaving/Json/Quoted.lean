/-!
# Quoted text in JSON

The characters between two quotes may hold escapes.  `isQuotable` says which
characters may stand there at all; `decode?` gives the text that they stand for.
A character outside the basic plane may be written as two escapes, a high and a
low half; a half on its own may stand in a text but stands for nothing.
-/

namespace Interleaving.Json.Quoted

/-- The value of a hexadecimal digit. -/
def hexDigit? (c : Char) : Option Nat :=
  if '0' ≤ c ∧ c ≤ '9' then some (c.toNat - '0'.toNat)
  else if 'a' ≤ c ∧ c ≤ 'f' then some (c.toNat - 'a'.toNat + 10)
  else if 'A' ≤ c ∧ c ≤ 'F' then some (c.toNat - 'A'.toNat + 10)
  else none

/-- The value of four hexadecimal digits. -/
def hexDigits? (a b c d : Char) : Option Nat := do
  return (((← hexDigit? a) * 16 + (← hexDigit? b)) * 16 + (← hexDigit? c)) * 16 + (← hexDigit? d)

/-- The character that a backslash and this character stand for. -/
def escape? : Char → Option Char
  | '"' => some '"'
  | '\\' => some '\\'
  | '/' => some '/'
  | 'b' => some '\x08'
  | 'f' => some '\x0c'
  | 'n' => some '\n'
  | 'r' => some '\r'
  | 't' => some '\t'
  | _ => none

/-- Whether a character may stand between quotes as it is. -/
def isPlain (c : Char) : Bool := c ≠ '"' && c ≠ '\\' && 0x20 ≤ c.toNat

/-- The code points and halves that some characters between quotes stand for. -/
def codes? : List Char → Option (List Nat)
  | [] => some []
  | '\\' :: 'u' :: a :: b :: c :: d :: rest => do
    return (← hexDigits? a b c d) :: (← codes? rest)
  | '\\' :: c :: rest => do
    return (← escape? c).toNat :: (← codes? rest)
  | c :: rest => if isPlain c then (codes? rest).map (c.toNat :: ·) else none

/-- Whether these characters may stand between quotes. -/
def isQuotable (raw : List Char) : Bool := (codes? raw).isSome

/-- Whether a code is the first half of a character. -/
def isHigh (code : Nat) : Bool := 0xD800 ≤ code && code < 0xDC00

/-- Whether a code is the second half of a character. -/
def isLow (code : Nat) : Bool := 0xDC00 ≤ code && code < 0xE000

/-- The characters of some codes, if every half has its other half. -/
def ofCodes? : List Nat → Option (List Char)
  | [] => some []
  | [code] => if isHigh code || isLow code then none else some [Char.ofNat code]
  | code :: next :: rest =>
    if isHigh code then
      if isLow next then
        (ofCodes? rest).map
          (Char.ofNat (0x10000 + (code - 0xD800) * 0x400 + (next - 0xDC00)) :: ·)
      else none
    else if isLow code then none
    else (ofCodes? (next :: rest)).map (Char.ofNat code :: ·)

/-- The text that some characters between quotes stand for. -/
def decode? (raw : List Char) : Option String :=
  ((codes? raw).bind ofCodes?).map String.ofList

end Interleaving.Json.Quoted

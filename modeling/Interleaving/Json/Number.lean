/-!
# Numbers in JSON text

A number is an optional minus sign, an integer without leading zeros, and then a
fraction and an exponent, each of which may be missing.  The program keeps only
natural numbers below `limit`; they are written in decimal digits and read from
exactly those digits.
-/

namespace Interleaving.Json.Number

/-- What follows one digit or more. -/
def afterDigits? : List Char → Option (List Char)
  | [] => none
  | c :: rest => if c.isDigit then some (rest.dropWhile Char.isDigit) else none

/-- What follows an integer: a zero, or digits that do not start with one. -/
def afterInteger? : List Char → Option (List Char)
  | '0' :: rest => some rest
  | cs => afterDigits? cs

/-- What follows a fraction, which may be missing. -/
def afterFraction? : List Char → Option (List Char)
  | '.' :: rest => afterDigits? rest
  | cs => some cs

/-- What follows a sign that may be missing. -/
def afterSign : List Char → List Char
  | '+' :: rest => rest
  | '-' :: rest => rest
  | cs => cs

/-- What follows an exponent, which may be missing. -/
def afterExponent? : List Char → Option (List Char)
  | 'e' :: rest => afterDigits? (afterSign rest)
  | 'E' :: rest => afterDigits? (afterSign rest)
  | cs => some cs

/-- Whether some characters are the text of a number. -/
def isNumber (cs : List Char) : Bool :=
  let unsigned := match cs with
    | '-' :: rest => rest
    | _ => cs
  (((afterInteger? unsigned).bind afterFraction?).bind afterExponent?) = some []

/-- Natural numbers in JSON text stay below this one, two to the power of 64. -/
def limit : Nat := 18446744073709551616

/-- The decimal digits of a natural number. -/
def digits (n : Nat) : List Char := Nat.toDigits 10 n

/-- Whether some characters are decimal digits without a leading zero. -/
def isDecimal : List Char → Bool
  | [] => false
  | ['0'] => true
  | '0' :: _ => false
  | cs => cs.all Char.isDigit

/-- The natural number below the limit that is written with these digits. -/
def natural? (cs : List Char) : Option Nat :=
  if isDecimal cs then
    let n := Nat.ofDigitChars 10 cs 0
    if n < limit then some n else none
  else none

end Interleaving.Json.Number

import Interleaving.Json.Token

/-!
# JSON values

Numbers and strings keep the characters with which they are written, so that
nothing is lost before it is known what they are to stand for.  A value is written
as the tokens of its parts without blanks between them.

A value is read from tokens by a machine that keeps the containers it is inside
of on a stack, so values may be nested to any depth.  It stops right after the
first value: what comes then is not looked at here.
-/

namespace Interleaving

/-- A JSON value.  The members of an object keep their order, and a key may occur
more than once. -/
inductive Json where
  | null
  | bool (value : Bool)
  | number (literal : List Char)
  /-- The characters between the quotes. -/
  | string (raw : List Char)
  | array (elements : List Json)
  | object (members : List (List Char × Json))

namespace Json

/-! ### Writing -/

mutual

/-- The tokens of a value. -/
def written : Json → List Token
  | .null => [.null]
  | .bool value => [.bool value]
  | .number literal => [.number literal]
  | .string raw => [.string raw]
  | .array [] => [.openArray, .closeArray]
  | .array (v :: rest) => .openArray :: (v.written ++ moreElements rest)
  | .object [] => [.openObject, .closeObject]
  | .object ((key, v) :: rest) =>
    .openObject :: .string key :: .colon :: (v.written ++ moreMembers rest)

/-- The tokens of an array from the end of an element on. -/
def moreElements : List Json → List Token
  | [] => [.closeArray]
  | v :: rest => .comma :: (v.written ++ moreElements rest)

/-- The tokens of an object from the end of a member on. -/
def moreMembers : List (List Char × Json) → List Token
  | [] => [.closeObject]
  | (key, v) :: rest => .comma :: .string key :: .colon :: (v.written ++ moreMembers rest)

end

/-- The text of a value. -/
def text (v : Json) : String := String.ofList (v.written.flatMap Token.chars)

/-! ### Reading -/

/-- A container that is not closed yet, with its finished parts, last first. -/
inductive Frame where
  | element (done : List Json)
  | member (done : List (List Char × Json)) (key : List Char)

/-- What may come next. -/
inductive Need where
  | value
  /-- The first element of an array or its end. -/
  | elementOrClose
  /-- The first key of an object or its end. -/
  | keyOrClose
  /-- A further key of an object with these members. -/
  | key (done : List (List Char × Json))
  | colon (done : List (List Char × Json)) (key : List Char)
  /-- What may follow a finished value: its container's end or a comma. -/
  | follow (finished : Json)

namespace Need

/-- The start of a value. -/
def open? (frames : List Frame) : Token → Option (Need × List Frame)
  | .null => some (.follow .null, frames)
  | .bool b => some (.follow (.bool b), frames)
  | .number literal => some (.follow (.number literal), frames)
  | .string raw => some (.follow (.string raw), frames)
  | .openArray => some (.elementOrClose, frames)
  | .openObject => some (.keyOrClose, frames)
  | _ => none

/-- One token, where `frames` are the open containers, innermost first. -/
def step? : Need → List Frame → Token → Option (Need × List Frame)
  | .value, frames, token => open? frames token
  | .elementOrClose, frames, .closeArray => some (.follow (.array []), frames)
  | .elementOrClose, frames, token => open? (.element [] :: frames) token
  | .keyOrClose, frames, .closeObject => some (.follow (.object []), frames)
  | .keyOrClose, frames, .string raw => some (.colon [] raw, frames)
  | .key done, frames, .string raw => some (.colon done raw, frames)
  | .colon done k, frames, .colon => some (.value, .member done k :: frames)
  | .follow v, .element done :: frames, .comma => some (.value, .element (v :: done) :: frames)
  | .follow v, .element done :: frames, .closeArray =>
    some (.follow (.array (v :: done).reverse), frames)
  | .follow v, .member done k :: frames, .comma => some (.key ((k, v) :: done), frames)
  | .follow v, .member done k :: frames, .closeObject =>
    some (.follow (.object ((k, v) :: done).reverse), frames)
  | _, _, _ => none

/-- The value that the tokens complete, and the tokens after it. -/
def read? : Need → List Frame → List Token → Option (Json × List Token)
  | .follow v, [], rest => some (v, rest)
  | _, _, [] => none
  | need, frames, token :: rest =>
    match need.step? frames token with
    | none => none
    | some (next, frames) => read? next frames rest

end Need

/-- The first value of a text, and the tokens after it. -/
def first? (text : String) : Option (Json × List Token) := Need.value.read? [] (tokens text.toList)

/-- The value of a text that holds one value and nothing else. -/
def ofText? (text : String) : Option Json :=
  match first? text with
  | some (v, []) => some v
  | _ => none

end Json

end Interleaving

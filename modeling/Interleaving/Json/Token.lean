import Interleaving.Json.Number
import Interleaving.Json.Quoted

/-!
# Tokens of JSON text

A text is cut into tokens by a machine that looks at each character once.  What
is no token becomes `illegal`, so cutting never fails: whoever reads the tokens
decides how far they have to be legal.
-/

namespace Interleaving.Json

/-- The smallest parts of a JSON text. -/
inductive Token where
  | openArray
  | closeArray
  | openObject
  | closeObject
  | comma
  | colon
  | null
  | bool (value : Bool)
  | number (literal : List Char)
  | string (raw : List Char)
  | illegal
deriving DecidableEq

namespace Token

/-- The characters of a token. -/
def chars : Token → List Char
  | openArray => ['[']
  | closeArray => [']']
  | openObject => ['\x7b']
  | closeObject => ['\x7d']
  | comma => [',']
  | colon => [':']
  | null => ['n', 'u', 'l', 'l']
  | bool true => ['t', 'r', 'u', 'e']
  | bool false => ['f', 'a', 'l', 's', 'e']
  | number literal => literal
  | string raw => '"' :: (raw ++ ['"'])
  | illegal => []

/-- The token that is a single punctuation mark. -/
def punctuation? : Char → Option Token
  | '[' => some openArray
  | ']' => some closeArray
  | '\x7b' => some openObject
  | '\x7d' => some closeObject
  | ',' => some comma
  | ':' => some colon
  | _ => none

/-- The token that is written as this word. -/
def ofWord (word : List Char) : Token :=
  if word = null.chars then null
  else if word = (bool true).chars then bool true
  else if word = (bool false).chars then bool false
  else if Number.isNumber word then number word
  else illegal

/-- The token that has these characters between quotes. -/
def ofQuoted (raw : List Char) : Token :=
  if Quoted.isQuotable raw then string raw else illegal

end Token

/-- Whether a character separates tokens and means nothing. -/
def isBlank (c : Char) : Bool := c = ' ' || c = '\t' || c = '\n' || c = '\r'

/-- Whether a character belongs to a word: a name or a number. -/
def isWordChar (c : Char) : Bool := c.isAlphanum || c = '+' || c = '-' || c = '.'

/-- Where in a token the next character stands.  The characters of an unfinished
token are kept last first. -/
inductive Place where
  | between
  | word (reversed : List Char)
  | quoted (reversed : List Char)
  /-- After a backslash between quotes. -/
  | escaped (reversed : List Char)

/-- The machine that cuts a text: its place and the finished tokens, last first. -/
structure Lexer where
  place : Place
  finished : List Token

namespace Lexer

/-- The machine before the first character. -/
def start : Lexer := ⟨.between, []⟩

/-- A character that starts something new. -/
def enter (c : Char) (finished : List Token) : Lexer :=
  if isBlank c then ⟨.between, finished⟩
  else if c = '"' then ⟨.quoted [], finished⟩
  else if isWordChar c then ⟨.word [c], finished⟩
  else ⟨.between, (Token.punctuation? c).getD .illegal :: finished⟩

/-- The machine after one more character. -/
def feed (l : Lexer) (c : Char) : Lexer :=
  match l.place with
  | .between => enter c l.finished
  | .word reversed =>
    if isWordChar c then ⟨.word (c :: reversed), l.finished⟩
    else enter c (Token.ofWord reversed.reverse :: l.finished)
  | .quoted reversed =>
    if c = '"' then ⟨.between, Token.ofQuoted reversed.reverse :: l.finished⟩
    else if c = '\\' then ⟨.escaped (c :: reversed), l.finished⟩
    else ⟨.quoted (c :: reversed), l.finished⟩
  | .escaped reversed => ⟨.quoted (c :: reversed), l.finished⟩

/-- The tokens at the end of the text. -/
def finish (l : Lexer) : List Token :=
  match l.place with
  | .between => l.finished.reverse
  | .word reversed => (Token.ofWord reversed.reverse :: l.finished).reverse
  | .quoted _ | .escaped _ => (Token.illegal :: l.finished).reverse

end Lexer

/-- The tokens of a text. -/
def tokens (text : List Char) : List Token := (text.foldl Lexer.feed Lexer.start).finish

end Interleaving.Json

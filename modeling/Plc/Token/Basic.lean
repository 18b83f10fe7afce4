/-
Tokens.

A `Token` is a stretch of source text together with its `Lexeme`: the class it
belongs to and what was decoded from it.  Reserved words and punctuation marks
carry themselves, literals their value.  The last token of every text is
`Lexeme.finish`.
-/
import Plc.Token.Keyword
import Plc.SyntaxError

namespace Plc

/-- Operators and punctuation. -/
inductive Mark where
  | assign | arrow | plusAssign | minusAssign | starAssign | slashAssign
  | plus | minus | star | slash | power
  | equal | notEqual | less | lessEqual | greater | greaterEqual
  | colon | semicolon | comma | dot | range
  | leftParen | rightParen | leftBracket | rightBracket
  | caret | hash | percent
  deriving DecidableEq

/-- The characters of a mark. -/
def Mark.symbol : Mark → String
  | .assign => ":=" | .arrow => "=>"
  | .plusAssign => "+=" | .minusAssign => "-=" | .starAssign => "*=" | .slashAssign => "/="
  | .plus => "+" | .minus => "-" | .star => "*" | .slash => "/" | .power => "**"
  | .equal => "=" | .notEqual => "<>"
  | .less => "<" | .lessEqual => "<=" | .greater => ">" | .greaterEqual => ">="
  | .colon => ":" | .semicolon => ";" | .comma => "," | .dot => "." | .range => ".."
  | .leftParen => "(" | .rightParen => ")" | .leftBracket => "[" | .rightBracket => "]"
  | .caret => "^" | .hash => "#" | .percent => "%"

/-- The memory area of a direct address. -/
inductive Address.Area where
  | input
  | output
  | memory
  deriving DecidableEq

/-- The width of a direct address. -/
inductive Address.Size where
  | bit
  | byte
  | word
  | doubleWord
  | longWord
  deriving DecidableEq

/-- A place in the process image, such as `%IX0.1`. -/
structure Address where
  area : Address.Area
  size : Address.Size
  byte : Nat
  bit : Option Nat
  deriving DecidableEq

namespace Address

/-- The letter of an area. -/
def Area.letter : Area → String
  | .input => "I"
  | .output => "Q"
  | .memory => "M"

/-- The letter of a width. -/
def Size.letter : Size → String
  | .bit => "X"
  | .byte => "B"
  | .word => "W"
  | .doubleWord => "D"
  | .longWord => "L"

end Address

/-- The class of a token and what was decoded from it. -/
inductive Lexeme where
  | keyword (k : Keyword)
  | mark (m : Mark)
  | name
  | quotedName (name : String)
  | integer (n : Nat)
  | real (x : Float)
  | string (s : String)
  | wideString (s : String)
  | duration (payload : String)
  | date (payload : String)
  | timeOfDay (payload : String)
  | dateAndTime (payload : String)
  | address (a : Address)
  | pragma (text : String)
  /-- A character that begins no token. -/
  | unknown
  /-- A literal or comment that is not well formed. -/
  | malformed (why : SyntaxError.Kind)
  /-- The end of the text. -/
  | finish

/-- A lexeme with one spelling: a reserved word or a mark. -/
inductive Terminal where
  | keyword (k : Keyword)
  | mark (m : Mark)
  deriving DecidableEq

namespace Terminal

instance : Coe Keyword Terminal := ⟨.keyword⟩

instance : Coe Mark Terminal := ⟨.mark⟩

/-- The spelling in quotes, as messages ask for it. -/
def quoted : Terminal → String
  | .keyword k => "'" ++ k.spelling ++ "'"
  | .mark m => "'" ++ m.symbol ++ "'"

end Terminal

namespace Lexeme

/-- The lexeme is the given reserved word or mark. -/
def is : Lexeme → Terminal → Bool
  | .keyword k, .keyword k' => k == k'
  | .mark m, .mark m' => m == m'
  | _, _ => false

/-- The lexeme is one of the given reserved words. -/
def isAmong (l : Lexeme) (ks : List Keyword) : Bool :=
  match l with
  | .keyword k => ks.contains k
  | _ => false

/-- The noun for a class of tokens that has no spelling of its own. -/
def noun : Lexeme → String
  | .keyword k => k.spelling
  | .mark m => m.symbol
  | .name => "identifier"
  | .quotedName _ => "quoted identifier"
  | .integer _ => "integer"
  | .real _ => "real"
  | .string _ => "string"
  | .wideString _ => "wstring"
  | .duration _ => "time"
  | .date _ => "date"
  | .timeOfDay _ => "time of day"
  | .dateAndTime _ => "date and time"
  | .address _ => "direct address"
  | .pragma _ => "pragma"
  | .unknown => "unknown"
  | .malformed _ => "error"
  | .finish => "eof"

/-- The lexeme is an unquoted name. -/
def isName : Lexeme → Bool
  | .name => true
  | _ => false

/-- The lexeme is the end of the text. -/
def isFinish : Lexeme → Bool
  | .finish => true
  | _ => false

end Lexeme

/-- A lexeme with its characters and its place. -/
structure Token where
  lexeme : Lexeme
  text : String
  span : Span

namespace Token

/-- The token as messages name it: marks and reserved words by their spelling, the marks that
begin with `<` after a blank, other tokens by the noun for their class and their text. -/
def describe (t : Token) : String :=
  match t.lexeme with
  | .finish => "end of file"
  | .name => "identifier '" ++ t.text ++ "'"
  | .quotedName _ => "identifier '" ++ t.text ++ "'"
  | .keyword k => "'" ++ k.spelling ++ "'"
  | .mark .less | .mark .lessEqual | .mark .notEqual => " '" ++ t.text ++ "'"
  | .mark m => "'" ++ m.symbol ++ "'"
  | l => l.noun ++ " '" ++ t.text ++ "'"

/-- The name that a token stands for: without its quotes, when it has any. -/
def nameText (t : Token) : String :=
  match t.lexeme with
  | .quotedName n => n
  | _ => t.text

end Token

end Plc

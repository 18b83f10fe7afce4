/-
Cutting a text into tokens.

`Gap.skip` passes over blanks and comments, `Lexed.read` takes one token off the
front of what is left, and `Scanner.next` does both.  What `Lexed.read` finds
depends only on the characters from there on, never on what stands before.

* `Scanner.next` — one token, and the place to go on from;
* `tokens` — every token up to the end of the text.

A malformed literal is a token too: the reader of the tokens decides what to
say about it.  Only digits that make no number end the scan: those that belong
to no decimal system, and those of a whole number that is too long.
-/
import Plc.Text.Blank
import Plc.Text.Letter
import Plc.Number.Double
import Plc.Dialect
import Plc.Token.Basic
import Plc.SyntaxError

namespace Plc

open Text

/-! ### Blanks and comments -/

/-- What the characters between two tokens are being read as. -/
inductive Gap.Mode where
  | blank
  /-- Inside a comment that runs to the end of the line. -/
  | line
  /-- Inside a comment closed by `*/`, opened at the given offset. -/
  | block (start : Nat)
  /-- Inside comments closed by `*)`, the outermost opened at the given offset; `depth` more are
  open inside it. -/
  | nested (start depth : Nat)

/-- How the characters between two tokens end. -/
inductive Gap where
  /-- At the given offset a token begins, or the text ends. -/
  | clear (pos : Nat) (rest : List Char)
  /-- A comment that was opened at an offset by two characters never closes. -/
  | unterminated (start stop : Nat) (opening : String)

/-- Passes over blanks and comments. -/
def Gap.skip : Gap.Mode → Nat → List Char → Gap
  | .blank, pos, '/' :: '/' :: cs => skip .line (pos + 2) cs
  | .blank, pos, '/' :: '*' :: cs => skip (.block pos) (pos + 2) cs
  | .blank, pos, '(' :: '*' :: cs => skip (.nested pos 0) (pos + 2) cs
  | .blank, pos, c :: cs => if isBlank c then skip .blank (pos + 1) cs else .clear pos (c :: cs)
  | .blank, pos, [] => .clear pos []
  | .line, pos, c :: cs => skip (if c = '\n' then .blank else .line) (pos + 1) cs
  | .line, pos, [] => .clear pos []
  | .block _, pos, '*' :: '/' :: cs => skip .blank (pos + 2) cs
  | .block start, pos, _ :: cs => skip (.block start) (pos + 1) cs
  | .block start, pos, [] => .unterminated start pos "/*"
  | .nested start depth, pos, '(' :: '*' :: cs => skip (.nested start (depth + 1)) (pos + 2) cs
  | .nested start depth, pos, '*' :: ')' :: cs =>
    skip (match depth with
      | 0 => .blank
      | d + 1 => .nested start d) (pos + 2) cs
  | .nested start depth, pos, _ :: cs => skip (.nested start depth) (pos + 1) cs
  | .nested start _, pos, [] => .unterminated start pos "(*"

/-! ### One token -/

/-- A token taken off the front of a text: its lexeme, its characters and the characters after
it. -/
structure Lexed where
  lexeme : Lexeme
  text : List Char
  rest : List Char

namespace Lexed

/-- The literals that a word before `#` announces. -/
def timeLexeme? (word : String) : Option (String → Lexeme) :=
  if word ∈ ["T", "TIME", "LTIME"] then some .duration
  else if word ∈ ["D", "DATE", "LDATE"] then some .date
  else if word ∈ ["TOD", "TIME_OF_DAY", "LTOD", "LTIME_OF_DAY"] then some .timeOfDay
  else if word ∈ ["DT", "DATE_AND_TIME", "LDT", "LDATE_AND_TIME"] then some .dateAndTime
  else none

/-- The characters that a time literal consists of, points and hyphens aside. -/
def isTimeChar (c : Char) : Bool :=
  isAsciiLetter c || isAsciiDigit c || c == '_' || c == ':'

/-- The character `c` before the given characters belongs to the time literal before it.  Two dots
belong to a range, and a hyphen belongs to the literal only before a digit. -/
def isInTime (c : Char) (cs : List Char) : Bool :=
  if c = '.' then cs.head? != some '.'
  else if c = '-' then cs.head?.any isDigit
  else isTimeChar c

/-- Splits off the body of a time literal. -/
def timeBody : List Char → List Char × List Char
  | c :: cs =>
    if isInTime c cs then
      let (body, rest) := timeBody cs
      (c :: body, rest)
    else ([], c :: cs)
  | [] => ([], [])

/-- The word in capitals. -/
def capitals (word : List Char) : String :=
  String.ofList (word.map Char.toUpper)

/-- A name or a reserved word.  Its characters and those after it are given. -/
def plainWord (d : Dialect) (text rest : List Char) : Lexed :=
  match d.keyword? (capitals text) with
  | some k => ⟨.keyword k, text, rest⟩
  | none => ⟨.name, text, rest⟩

/-- A name, a reserved word, or a time literal. -/
def word (d : Dialect) (cs : List Char) : Lexed :=
  let text := cs.takeWhile isNameChar
  match cs.dropWhile isNameChar, timeLexeme? (capitals text) with
  | '#' :: cs', some literal =>
    let (body, rest) := timeBody cs'
    ⟨literal (String.ofList body), text ++ '#' :: body, rest⟩
  | rest, _ => plainWord d text rest

/-- A digit or the underscore that groups digits. -/
def isGrouped (isDigitOf : Char → Bool) (c : Char) : Bool :=
  isDigitOf c || c == '_'

/-- Underscores are grouped badly: two in a row, or one at the end. -/
def isBadlyGrouped : List Char → Bool
  | [] => false
  | ['_'] => true
  | '_' :: '_' :: _ => true
  | _ :: cs => isBadlyGrouped cs

/-- The digits allowed in a base; only four bases are known. -/
def baseDigits? : Nat → Option (Char → Bool)
  | 2 => some fun c => c == '0' || c == '1'
  | 8 => some fun c => '0' ≤ c && c ≤ '7'
  | 10 => some isAsciiDigit
  | 16 => some isHexDigit
  | _ => none

/-- The whole number that decimal digits make.  A number that is too long is a fault, not a malformed
token. -/
def decimal (digits : List Char) : Except Fault Nat :=
  match decimal? digits with
  | some n => .ok n
  | none => .error .unreadableDigits

/-- The whole number that digits make in a base.  Only in decimal can they be too many. -/
def inBase (radix : Nat) (digits : List Char) : Except Fault Nat :=
  if radix = 10 then decimal digits else .ok (natOfHex radix digits)

/-- The integer that digits make in a base, if the base is known and they are digits of it. -/
def basedLexeme (radix : Nat) (digits : List Char) : Except Fault Lexeme :=
  match baseDigits? radix with
  | some allowed =>
    if !digits.isEmpty && digits.all allowed then do
      let n ← inBase radix digits
      return .integer n
    else .ok (.malformed .invalidNumber)
  | none => .ok (.malformed .invalidNumber)

/-- An integer after its base, such as `16#FF`.  The base and the `#` are given. -/
def basedNumber (base : List Char) (cs : List Char) : Except Fault Lexed := do
  let body := cs.takeWhile (isGrouped isHexDigit)
  let radix ← decimal base
  let lexeme ← basedLexeme radix (body.filter (· != '_'))
  return ⟨lexeme, base ++ '#' :: body, cs.dropWhile (isGrouped isHexDigit)⟩

/-- The characters of a kind after a point, and those after them: none unless a digit of any kind
follows the point. -/
def afterPoint (p : Char → Bool) (cs : List Char) : Option (List Char) × List Char :=
  match cs with
  | '.' :: d :: cs' =>
    if isDigit d then (some ((d :: cs').takeWhile p), (d :: cs').dropWhile p) else (none, cs)
  | _ => (none, cs)

/-- The part of a real number after its point. -/
def fraction (cs : List Char) : Option (List Char) × List Char :=
  afterPoint (isGrouped isAsciiDigit) cs

/-- The exponent of a real number: its mark, its sign and its digits. -/
structure Exponent where
  mark : Char
  sign : List Char
  digits : List Char

/-- A sign, if one comes, and the characters after it. -/
def exponentSign (cs : List Char) : List Char × List Char :=
  match cs with
  | s :: cs' => if s == '+' || s == '-' then ([s], cs') else ([], cs)
  | [] => ([], [])

/-- The exponent of a real number: none unless a digit of any kind follows the mark and sign. -/
def exponent (cs : List Char) : Option Exponent × List Char :=
  match cs with
  | e :: cs' =>
    let (sign, ds) := exponentSign cs'
    if (e == 'e' || e == 'E') && ds.head?.any isDigit then
      (some ⟨e, sign, ds.takeWhile (isGrouped isAsciiDigit)⟩, ds.dropWhile (isGrouped isAsciiDigit))
    else (none, cs)
  | [] => (none, [])

/-- The characters after a point, the point included. -/
def fractionText : Option (List Char) → List Char
  | some f => '.' :: f
  | none => []

/-- The characters of an exponent. -/
def exponentText : Option Exponent → List Char
  | some x => x.mark :: x.sign ++ x.digits
  | none => []

/-- The value of a real number from its digits before the point, after it, and its exponent. -/
def realValue (whole : List Char) (frac : List Char) (exp : Option Exponent) : Float :=
  let places := (frac.filter (· != '_')).length
  let shift : Int := match exp with
    | some x =>
      let n : Int := natOfDigits x.digits
      if x.sign == ['-'] then -n else n
    | none => 0
  Number.ofDecimal (natOfDigits (whole ++ frac)) (shift - places)

/-- A number in decimal: its digits before the point, which are given, and what follows. -/
def decimalNumber (whole cs : List Char) : Except Fault Lexed :=
  let (frac, cs') := fraction cs
  let (exp, rest) := exponent cs'
  let text := whole ++ fractionText frac ++ exponentText exp
  if isBadlyGrouped text then .ok ⟨.malformed .invalidNumber, text, rest⟩
  else
    match frac, exp with
    | none, none => do
      let n ← decimal whole
      return ⟨.integer n, text, rest⟩
    | _, some x =>
      if x.digits.isEmpty then .error .unreadableDigits
      else .ok ⟨.real (realValue whole (frac.getD []) exp), text, rest⟩
    | some f, none => .ok ⟨.real (realValue whole f none), text, rest⟩

/-- A number.  The text begins with a digit. -/
def number (cs : List Char) : Except Fault Lexed :=
  let whole := cs.takeWhile (isGrouped isAsciiDigit)
  match cs.dropWhile (isGrouped isAsciiDigit) with
  | '#' :: rest => basedNumber whole rest
  | rest => decimalNumber whole rest

/-- The character that an escape letter or sign stands for. -/
def escape? (c : Char) : Option Char :=
  match c with
  | 'L' | 'l' | 'N' | 'n' => some '\n'
  | 'P' | 'p' => some '\x0c'
  | 'R' | 'r' => some '\r'
  | 'T' | 't' => some '\t'
  | '$' => some '$'
  | '\'' => some '\''
  | '"' => some '"'
  | _ => none

/-- The number of hexadecimal digits in an escape: four in a wide string, two in a narrow one. -/
def hexWidth (quote : Char) : Nat :=
  if quote = '"' then 4 else 2

/-- The character written by a `$` before the given characters in hexadecimal. -/
def hexEscape? (quote : Char) (cs : List Char) : Option Char :=
  let code := cs.take (hexWidth quote)
  if code.length = hexWidth quote && code.all isHexDigit then some (Char.ofNat (natOfHex 16 code))
  else none

/-- What the unit that begins with the character `c` stands for, and how many of the characters
after `c` belong to it; none when `c` is the closing quote. -/
def unit? (quote c : Char) (cs : List Char) : Option (Char × Nat) :=
  if c = quote then
    if cs.head? = some quote then some (quote, 1) else none
  else if c = '$' then
    match cs.head?.bind escape?, hexEscape? quote cs with
    | some x, _ => some (x, 1)
    | none, some x => some (x, hexWidth quote)
    | none, none => some ('$', 0)
  else some (c, 0)

/-- The inside of a string and its closing quote: the characters as written, what they stand for,
and the characters after the quote.  The first `skip` characters belong to a unit already
read.  None when the quote never closes. -/
def stringBody (quote : Char) : Nat → List Char → Option (List Char × List Char × List Char)
  | _, [] => none
  | skip + 1, c :: cs =>
    (stringBody quote skip cs).map fun (text, value, rest) => (c :: text, value, rest)
  | 0, c :: cs =>
    match unit? quote c cs with
    | none => some ([c], [], cs)
    | some (x, more) =>
      (stringBody quote more cs).map fun (text, value, rest) => (c :: text, x :: value, rest)

/-- A string literal.  Its opening quote is given; the other characters follow. -/
def stringLiteral (quote : Char) (cs : List Char) : Lexed :=
  match stringBody quote 0 cs with
  | some (text, value, rest) =>
    let s := String.ofList value
    ⟨if quote = '"' then .wideString s else .string s, quote :: text, rest⟩
  | none => ⟨.malformed .unclosedString, quote :: cs, []⟩

/-- The characters up to a closing character and those after it; none when it never comes. -/
def upTo? (close : Char) (cs : List Char) : Option (List Char × List Char) :=
  match cs.dropWhile (· != close) with
  | _ :: rest => some (cs.takeWhile (· != close), rest)
  | [] => none

/-- A name in double quotes.  Its opening quote is given; the other characters follow. -/
def quotedName (cs : List Char) : Lexed :=
  match upTo? '"' cs with
  | some (name, rest) => ⟨.quotedName (String.ofList name), '"' :: name ++ ['"'], rest⟩
  | none => ⟨.malformed .unclosedString, '"' :: cs, []⟩

/-- An annotation in braces.  Its opening brace is given; the other characters follow. -/
def pragma (cs : List Char) : Lexed :=
  match upTo? '}' cs with
  | some (body, rest) => ⟨.pragma (String.ofList (trim body)), '\x7b' :: body ++ ['\x7d'], rest⟩
  | none => ⟨.malformed .unclosedBracket, '\x7b' :: cs, []⟩

/-- The memory area with the given letter, a dotless i counting as an i. -/
def area? (c : Char) : Option Address.Area :=
  match c with
  | 'I' | 'i' | 'ı' => some .input
  | 'Q' | 'q' => some .output
  | 'M' | 'm' => some .memory
  | _ => none

/-- The width with the given letter. -/
def size? (c : Char) : Option Address.Size :=
  match c with
  | 'X' | 'x' => some .bit
  | 'B' | 'b' => some .byte
  | 'W' | 'w' => some .word
  | 'D' | 'd' => some .doubleWord
  | 'L' | 'l' => some .longWord
  | _ => none

/-- The offset in a direct address, and the number of the bit after a point.  The characters before
it, the area and the width are given. -/
def addressTail (lead : List Char) (area : Address.Area) (size : Address.Size) (cs : List Char) :
    Except Fault Lexed :=
  let digits := cs.takeWhile isAsciiDigit
  if digits.isEmpty then
    .ok ⟨.malformed .invalidDirectAddress, lead ++ cs.takeWhile isNameChar, cs.dropWhile isNameChar⟩
  else do
    let (bits, rest) := afterPoint isAsciiDigit (cs.dropWhile isAsciiDigit)
    let bit ← bits.mapM decimal
    let byte ← decimal digits
    return ⟨.address ⟨area, size, byte, bit⟩, lead ++ digits ++ fractionText bits, rest⟩

/-- A direct address, or a percent sign.  The percent sign is given; the other characters
follow. -/
def address (cs : List Char) : Except Fault Lexed :=
  match cs with
  | a :: cs' =>
    match area? a with
    | some area =>
      match cs' with
      | s :: cs'' =>
        match size? s with
        | some size => addressTail ['%', a, s] area size cs''
        | none => addressTail ['%', a] area .bit cs'
      | [] => addressTail ['%', a] area .bit []
    | none => .ok ⟨.mark .percent, ['%'], cs⟩
  | [] => .ok ⟨.mark .percent, ['%'], []⟩

/-- The marks that assign the result of an operation. -/
def compoundMarks : List (List Char × Lexeme) := [
  (['+', '='], .mark .plusAssign), (['-', '='], .mark .minusAssign),
  (['*', '='], .mark .starAssign), (['/', '='], .mark .slashAssign)]

/-- The marks of every dialect; one that begins another comes after it. -/
def plainMarks : List (List Char × Lexeme) := [
  ([':', '='], .mark .assign), (['=', '>'], .mark .arrow), (['<', '>'], .mark .notEqual),
  (['<', '='], .mark .lessEqual), (['>', '='], .mark .greaterEqual), (['*', '*'], .mark .power),
  (['.', '.'], .mark .range), (['+'], .mark .plus), (['-'], .mark .minus), (['*'], .mark .star),
  (['/'], .mark .slash), (['='], .mark .equal), (['<'], .mark .less), (['>'], .mark .greater),
  ([':'], .mark .colon), ([';'], .mark .semicolon), ([','], .mark .comma), (['.'], .mark .dot),
  (['('], .mark .leftParen), ([')'], .mark .rightParen), (['['], .mark .leftBracket),
  ([']'], .mark .rightBracket), (['^'], .mark .caret), (['#'], .mark .hash),
  (['&'], .keyword .AND)]

/-- The marks of a dialect, in the order in which they are tried. -/
def marks (d : Dialect) : List (List Char × Lexeme) :=
  if d.compoundAssignment then compoundMarks ++ plainMarks else plainMarks

/-- An operator, a punctuation mark, or a character that begins no token. -/
def mark (d : Dialect) (c : Char) (cs : List Char) : Lexed :=
  match (marks d).find? (·.1.isPrefixOf (c :: cs)) with
  | some (text, lexeme) => ⟨lexeme, text, (c :: cs).drop text.length⟩
  | none => ⟨.unknown, [c], cs⟩

/-- Takes one token off the front of a text that begins with neither a blank nor a comment. -/
def read (d : Dialect) (c : Char) (cs : List Char) : Except Fault Lexed :=
  if isNameStart c then .ok (word d (c :: cs))
  else if isAsciiDigit c then number (c :: cs)
  else if c = '\'' then .ok (stringLiteral c cs)
  else if c = '"' then .ok (if d.quotedNames then quotedName cs else stringLiteral c cs)
  else if c = '%' then address cs
  else if c = '\x7b' && d.pragmas then .ok (pragma cs)
  else .ok (mark d c cs)

end Lexed

/-! ### The whole text -/

/-- A place in a text: its offset and the characters from there on. -/
structure Scanner where
  pos : Nat
  rest : List Char

namespace Scanner

/-- The beginning of a text, after a byte order mark if there is one. -/
def start : List Char → Scanner
  | '\ufeff' :: cs => ⟨1, cs⟩
  | cs => ⟨0, cs⟩

/-- The token that ends every text. -/
def finish (pos : Nat) : Token :=
  ⟨.finish, "", ⟨pos, pos, Nat.le_refl pos⟩⟩

/-- The next token and the place after it; the end of the text is a token that stays. -/
def next (d : Dialect) (s : Scanner) : Except Fault (Token × Scanner) :=
  match Gap.skip .blank s.pos s.rest with
  | .unterminated start stop opening =>
    .ok (⟨.malformed .unterminatedComment, opening, ⟨start, max start stop, Nat.le_max_left ..⟩⟩,
      ⟨stop, []⟩)
  | .clear pos [] => .ok (finish pos, ⟨pos, []⟩)
  | .clear pos (c :: cs) =>
    match Lexed.read d c cs with
    | .error fault => .error fault
    | .ok lexed =>
      let stop := pos + lexed.text.length
      .ok (⟨lexed.lexeme, String.ofList lexed.text, ⟨pos, stop, Nat.le_add_right ..⟩⟩,
        ⟨stop, lexed.rest⟩)

/-- At most `n` tokens and then the end; or the tokens before a fault, and the fault. -/
def run (d : Dialect) : Nat → Scanner → List Token × Option Fault
  | 0, s => ([finish s.pos], none)
  | n + 1, s =>
    match s.next d with
    | .error fault => ([], some fault)
    | .ok (t, s') =>
      if t.lexeme.isFinish then ([t], none)
      else
        let (ts, fault) := run d n s'
        (t :: ts, fault)

/-- The first tokens, asked for one by one, each with the offset reached. -/
def first (d : Dialect) : Nat → Scanner → Except Fault (List (Token × Nat))
  | 0, _ => .ok []
  | n + 1, s => do
    let (t, s') ← s.next d
    let ts ← first d n s'
    return (t, s'.pos) :: ts

end Scanner

/-- The tokens of a text in order, the end of the text last; when a fault cuts the scan short, the
tokens before it and the fault.  A text of `n` characters has at most `n` tokens before its end. -/
def scan (d : Dialect) (source : List Char) : List Token × Option Fault :=
  (Scanner.start source).run d (source.length + 1)

/-- The tokens of a text in order, the end of the text last. -/
def tokens (d : Dialect) (source : List Char) : Except Fault (List Token) :=
  match scan d source with
  | (ts, none) => .ok ts
  | (_, some fault) => .error fault

end Plc

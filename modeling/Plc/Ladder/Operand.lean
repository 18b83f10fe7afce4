/-
What an operand of a ladder instruction refers to.

Operands are kept as text by the reader of rungs.  Here such a text is taken for a literal, for
a tag with its members and subscripts, or for an expression over tags:

* `Operand.value` — the classification of a text, if it comes to an end;
* `Operand.Value.tags` — the names of the tags in it, from left to right.

`A.B[i].[C.D]` is the tag `A`, and the tags `i` and `C` are mentioned in its subscripts;
`ABS(x) - 1.0` is an expression over the tag `x`.

The parts of a text are classified in the same way as the text.  A call whose parentheses do not
match, as in `ABS(x)(y)`, is an expression and the only term of it, and so it is taken apart
without end.
-/
import Plc.SyntaxError
import Plc.Text.Blank
import Plc.Text.Case
import Plc.Text.Letter

namespace Plc.Ladder.Operand

open Text

/-- What an operand is. -/
inductive Value where
  | literal (text : String)
  /-- A tag as it is written, its name up to the first access, and what stands in its
  subscripts. -/
  | tag (base path : String) (indices : List Value)
  /-- An expression, and the tags it is built from. -/
  | expression (text : String) (terms : List Value)

namespace Value

/-- The name of the tag that the operand is. -/
def base? : Value → Option String
  | .tag base _ _ => some base
  | .literal _ | .expression _ _ => none

/-- The operand is a literal. -/
def isLiteral : Value → Bool
  | .literal _ => true
  | _ => false

mutual

/-- The names of the tags in an operand, from left to right. -/
def tags : Value → List String
  | .literal _ => []
  | .tag base _ indices => base :: tagsAll indices
  | .expression _ terms => tagsAll terms

/-- The names of the tags in some operands. -/
def tagsAll : List Value → List String
  | [] => []
  | v :: vs => v.tags ++ tagsAll vs

end

/-- What an operand adds to the terms of an expression that it is part of. -/
def asTerms : Value → List Value
  | .literal _ => []
  | .tag base path indices => [.tag base path indices]
  | .expression _ terms => terms

end Value

/-! ### Literals -/

/-- A number is written with these characters. -/
def isNumberChar (c : Char) : Bool :=
  isAsciiDigit c || c == '.' || c == 'e' || c == 'E' || c == '+' || c == '-' || c == '_'

/-- The text is a number: it names its radix, or it is made of digits and what may stand between
them, after a sign perhaps. -/
def isNumber (text : List Char) : Bool :=
  if ['1', '6', '#'].isPrefixOf text || ['8', '#'].isPrefixOf text || ['2', '#'].isPrefixOf text then
    true
  else
    let unsigned := text.dropWhile fun c => c == '+' || c == '-'
    unsigned.head?.any isAsciiDigit && unsigned.all isNumberChar

/-- The text is in quotes. -/
def isQuoted (text : List Char) : Bool :=
  match text, text.getLast? with
  | q :: _ :: _, some last => (q == '\'' || q == '"') && last == q
  | _, _ => false

/-! ### Brackets -/

/-- The character opens a bracket. -/
def opens (c : Char) : Bool := c == '(' || c == '['

/-- The character closes a bracket. -/
def closes (c : Char) : Bool := c == ')' || c == ']'

/-- The character stands between the terms of an expression. -/
def isOperator (c : Char) : Bool :=
  c == '+' || c == '*' || c == '/' || c == '>' || c == '<' || c == '='

/-- The characters of a text, each with whether it stands outside of all brackets; brackets
themselves do not. -/
def leveled : (depth : Int) → List Char → List (Char × Bool)
  | _, [] => []
  | depth, c :: cs =>
    if opens c then (c, false) :: leveled (depth + 1) cs
    else if closes c then (c, false) :: leveled (depth - 1) cs
    else (c, depth == 0) :: leveled depth cs

/-- What has been seen of a text that may be an expression. -/
inductive Progress where
  /-- Nothing but blanks and signs. -/
  | start
  /-- The beginning of a term. -/
  | term
  /-- A term and a blank after it. -/
  | afterBlank

/-- Outside of brackets, an operator follows, or a second word. -/
def continues : Progress → List (Char × Bool) → Bool
  | _, [] => false
  | .afterBlank, (_, false) :: cs => continues .afterBlank cs
  | _, (_, false) :: cs => continues .term cs
  | p, (c, true) :: cs =>
    if isOperator c then true
    else if c == '-' then
      match p with
      | .start => continues .start cs
      | _ => true
    else if isBlank c then
      match p with
      | .start => continues .start cs
      | _ => continues .afterBlank cs
    else
      match p with
      | .afterBlank => true
      | _ => continues .term cs

/-- The text has an operator or a second word outside of brackets. -/
def looksLikeExpression (text : List Char) : Bool :=
  continues .start (leveled 0 text)

/-- Every bracket is closed and none is closed that is not open. -/
def isBalanced : (depth : Nat) → List Char → Bool
  | depth, [] => depth == 0
  | depth, c :: cs =>
    if opens c then isBalanced (depth + 1) cs
    else if closes c then
      match depth with
      | 0 => false
      | outer + 1 => isBalanced outer cs
    else isBalanced depth cs

/-! ### Parts -/

/-- The pieces between the characters that separate; separators are dropped. -/
def pieces (separates : Char × Bool → Bool) : List (Char × Bool) → List (List Char)
  | [] => [[]]
  | c :: cs =>
    if separates c then [] :: pieces separates cs
    else
      match pieces separates cs with
      | p :: ps => (c.1 :: p) :: ps
      | [] => [[c.1]]

/-- The words that are operators in an expression. -/
def wordOperators : List String := ["AND", "OR", "XOR", "NOT", "MOD"]

/-- The terms between the operators of an expression. -/
def termsOf (text : List Char) : List (List Char) :=
  let separates := fun ((c, top) : Char × Bool) => top && (isOperator c || c == '-' || isBlank c)
  ((pieces separates (leveled 0 text)).map trim).filter fun t =>
    !t.isEmpty && !wordOperators.contains (upper (String.ofList t))

/-- The parts between the commas outside of brackets, without those that are blank. -/
def argumentsOf (text : List Char) : List (List Char) :=
  ((pieces (fun (c, top) => top && c == ',') (leveled 0 text)).map trim).filter fun t => !t.isEmpty

/-- The functions of expressions. -/
def functions : List String := [
  "ABS", "SQRT", "SQR", "LN", "LOG", "EXP", "SIN", "COS", "TAN", "ASN", "ACS", "ATN", "DEG", "RAD",
  "TRN", "TRUNC", "NOT", "AND", "OR", "XOR", "MOD", "FRD", "TOD"]

/-- The name before an opening parenthesis and what stands between it and the closing one at the
end. -/
def call? (text : List Char) : Option (List Char × List Char) :=
  let name := text.takeWhile isNameChar
  match name, (text.dropWhile isNameChar).dropWhile isBlank with
  | c :: _, '(' :: rest =>
    if isNameStart c && rest.getLast? == some ')' then some (name, rest.dropLast) else none
  | _, _ => none

/-- The text is a call of a known function. -/
def isFunctionCall (text : List Char) : Bool :=
  (call? text).any fun (name, _) => functions.contains (upper (String.ofList name))

/-- The arguments of a call of any function, if the brackets between its parentheses match. -/
def inputs? (term : List Char) : Option (List (List Char)) :=
  match call? term with
  | some (_, args) => if isBalanced 0 args then some (argumentsOf args) else none
  | none => none

/-- The parenthesis that a text begins with, `depth` of them being open, is the one that its last
character closes, if any does. -/
def closesAtEnd : (depth : Int) → List Char → Bool
  | _, [] | _, [_] => true
  | depth, c :: cs =>
    if c == '(' then closesAtEnd (depth + 1) cs
    else if c == ')' then depth != 1 && closesAtEnd (depth - 1) cs
    else closesAtEnd depth cs

/-- The text without the parentheses around all of it, at most `count` pairs. -/
def withoutParens : (count : Nat) → List Char → List Char
  | 0, text => text
  | count + 1, text =>
    match text with
    | '(' :: rest =>
      if rest.getLast? == some ')' && closesAtEnd 0 text then
        withoutParens count (trim rest.dropLast)
      else text
    | _ => text

/-! ### Tags -/

/-- The character ends the name of a tag. -/
def endsName (c : Char) : Bool := c == '.' || c == '[' || c == ':'

/-- What follows the name of a tag, the address of a module such as `:1:I` left out. -/
def accesses (text : List Char) : List Char :=
  (text.dropWhile fun c => !endsName c).dropWhile fun c => c != '.' && c != '['

/-- A subscript: its text, and whether it stands for the name of a member, as in `.[C]`. -/
structure Subscript where
  text : List Char
  indirect : Bool

/-- The subscripts among some accesses.  `open?` holds the one being read, its characters in reverse
and the number of brackets open in it; `afterDot` tells whether a dot came just before. -/
def subscripts : (open? : Option (Nat × Subscript)) → (afterDot : Bool) → List Char →
    List Subscript
  | none, _, [] => []
  | some (_, s), _, [] => [{ s with text := s.text.reverse }]
  | none, afterDot, c :: cs =>
    if c == '[' then subscripts (some (0, ⟨[], afterDot⟩)) false cs
    else subscripts none (c == '.') cs
  | some (depth, s), _, c :: cs =>
    if c == '[' then subscripts (some (depth + 1, { s with text := c :: s.text })) false cs
    else if c == ']' then
      match depth with
      | 0 => { s with text := s.text.reverse } :: subscripts none false cs
      | depth + 1 => subscripts (some (depth, { s with text := c :: s.text })) false cs
    else subscripts (some (depth, { s with text := c :: s.text })) false cs

/-- A part of a subscript that can mention a tag. -/
def mayBeTag (part : List Char) : Bool :=
  part.head?.any (fun c => isLetter c || c == '_') || looksLikeExpression part

/-- The texts in a subscript that can mention tags: all of an indirect one, or parts between
commas. -/
def Subscript.parts (s : Subscript) : List (List Char) :=
  if s.indirect then [s.text] else (argumentsOf s.text).filter mayBeTag

/-- The texts in the subscripts of a tag that can mention tags. -/
def partsOf (text : List Char) : List (List Char) :=
  (subscripts none false (accesses text)).flatMap Subscript.parts

/-- The name of a tag, up to the first access. -/
def nameOf (text : List Char) : String :=
  String.ofList (text.takeWhile fun c => !endsName c)

/-! ### Classification -/

/-- The text is a literal: it is empty, a number, in quotes, or an address. -/
def isLiteral (text : List Char) : Bool :=
  text.isEmpty || isNumber text || isQuoted text || text.head? == some '%'

/-- The text is taken apart into terms. -/
def isExpression (text : List Char) : Bool :=
  looksLikeExpression text || isFunctionCall text

mutual

/-- The classification of a text, at most `levels` deep. -/
def classify : (levels : Nat) → List Char → Except Fault Value
  | 0, text =>
    let t := trim text
    if isLiteral t then .ok (.literal (String.ofList t)) else .error .endless
  | below + 1, text =>
    let t := trim text
    if isLiteral t then .ok (.literal (String.ofList t))
    else if isExpression t then
      (collect below t).map fun terms => .expression (String.ofList t) terms
    else
      ((partsOf t).mapM fun part => classify below part).map fun indices =>
        .tag (nameOf t) (String.ofList t) (indices.filter fun v => !v.isLiteral)

/-- The tags in the terms of an expression. -/
def collect : (levels : Nat) → List Char → Except Fault (List Value)
  | 0, _ => .error .endless
  | below + 1, text => ((termsOf text).mapM fun term => collectTerm below term).map List.flatten

/-- The tags in one term. -/
def collectTerm : (levels : Nat) → List Char → Except Fault (List Value)
  | 0, _ => .error .endless
  | below + 1, term =>
    match inputs? term with
    | some args =>
      (args.mapM fun arg => classify below arg).map fun values => values.flatMap Value.asTerms
    | none =>
      let bare := withoutParens term.length term
      if bare != term || looksLikeExpression bare then collect below bare
      else (classify below bare).map Value.asTerms

end

/-- What an operand is, unless it is taken apart without end.  A text inside another is shorter, and
between the two there are four levels at most: what can be classified at all needs no more levels than
these. -/
def value (text : String) : Except Fault Value :=
  classify (4 * text.length + 2) text.toList

end Plc.Ladder.Operand

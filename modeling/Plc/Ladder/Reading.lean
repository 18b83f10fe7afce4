/-
Reading the text of a rung, and the errors in it.

    rung        = element* ";"
    element     = "[" branch ("," branch)* "]" | instruction
    branch      = element element*
    instruction = name "(" [operand ("," operand)*] ")"
    operand     = "?" | text in which brackets and quotes are balanced

Blanks may stand between elements and around operands.  The first character that no rung could
have there ends the reading.

* `RungError.message` — an error in words;
* `RungError.explain` — an error above the line it is in, with a caret below the offending
  character; of a long line only a window is shown;
* `readRung` — the rung that a text is;
* `readLine` — the same for a line of a routine, which may be blank or wrong.
-/
import Plc.Ladder.Rung
import Plc.Limits

namespace Plc.Ladder

/-- What can be wrong with the text of a rung. -/
inductive RungError.Kind where
  | unexpectedChar
  | expected
  | unclosedBracket
  | unclosedParen
  | emptyInput
  | missingTerminator
  | invalidInstruction
  | unexpectedEnd
  deriving DecidableEq

/-- An error in the text of a rung; the place is missing when the rung as a whole is wrong. -/
structure RungError where
  kind : RungError.Kind
  position : Option Nat := none
  char : Option String := none
  expected : Option String := none

namespace RungError

/-- The name of the kind. -/
def Kind.code : Kind → String
  | .unexpectedChar => "UNEXPECTED_CHAR"
  | .expected => "EXPECTED"
  | .unclosedBracket => "UNCLOSED_BRACKET"
  | .unclosedParen => "UNCLOSED_PAREN"
  | .emptyInput => "EMPTY_INPUT"
  | .missingTerminator => "MISSING_TERMINATOR"
  | .invalidInstruction => "INVALID_INSTRUCTION"
  | .unexpectedEnd => "UNEXPECTED_EOF"

/-- Every kind. -/
def Kind.all : List Kind := [
  .unexpectedChar, .expected, .unclosedBracket, .unclosedParen, .emptyInput, .missingTerminator,
  .invalidInstruction, .unexpectedEnd]

/-- The error in words. -/
def message (e : RungError) : String :=
  let place := " at position " ++ (e.position.map toString).getD "None"
  match e.kind with
  | .unexpectedChar => "unexpected character '" ++ e.char.getD "None" ++ "'" ++ place
  | .expected => "expected " ++ e.expected.getD "None" ++ place
  | .unclosedBracket => "unclosed bracket '['" ++ place
  | .unclosedParen => "unclosed parenthesis '('" ++ place
  | .emptyInput => "empty input"
  | .missingTerminator => "missing rung terminator ';'"
  | .invalidInstruction => "invalid instruction" ++ place
  | .unexpectedEnd => "unexpected end of input"

/-- The place of the offending character. -/
def span (e : RungError) : Option Span :=
  e.position.map Span.single

/-- Lines up to this length are shown whole. -/
def fullLine : Nat := 80

/-- So many characters of a long line are shown before the offending one. -/
def shownBefore : Nat := 30

/-- So many characters of a long line are shown from the offending one on. -/
def shownAfter : Nat := 50

/-- What is shown of a line, and the column in it of the character at `column`. -/
def excerptOf (line : List Char) (column : Nat) : List Char × Nat :=
  if line.length ≤ fullLine then (line, column)
  else
    let start := column - shownBefore
    let stop := min line.length (column + shownAfter)
    let before : List Char := if start > 0 then ['.', '.', '.'] else []
    let after : List Char := if stop < line.length then ['.', '.', '.'] else []
    (before ++ Text.slice line start stop ++ after, column - start + before.length)

/-- The error, and the line it is in with a caret below the offending character. -/
def explain (e : RungError) (source : List Char) : String :=
  let header := "error: " ++ e.message ++ "\n"
  match e.position with
  | none => header
  | some p =>
    if source.length ≤ p then header
    else
      let first := Text.lineStart source p
      let line := toString (Text.lineColumn source p).1
      let column := p - first
      let (shown, caret) := excerptOf (Text.slice source first (Text.lineStop source p)) column
      let gutter := line ++ " | "
      header ++ " --> position " ++ line ++ ":" ++ toString column ++ "\n" ++
        gutter ++ String.ofList shown ++ "\n" ++
        String.ofList (List.replicate (gutter.length + caret) ' ') ++ "^ here"

end RungError

/-- The place of a rung in a controller. -/
structure RungPlace where
  program : String
  routine : String
  number : Int

/-- The place in one text. -/
def RungPlace.path (p : RungPlace) : String :=
  p.program ++ "/" ++ p.routine ++ "/Rung#" ++ toString p.number

/-- The error under the place of its rung. -/
def RungError.explainAt (e : RungError) (source : List Char) (place : RungPlace) : String :=
  "in " ++ place.path ++ "\n" ++ e.explain source

/-- Why the text of a rung could not be read. -/
inductive RungFault where
  | malformed (e : RungError)
  | limit (e : LimitError)

open Text

/-- Where the reading stands. -/
structure Cursor where
  rest : List Char
  position : Nat := 0
  /-- The passes through loops so far. -/
  passes : Nat := 0
  usage : Usage := {}

/-- A rule of the grammar. -/
abbrev RungRule (α : Type) := ReaderT Limits (EStateM RungFault Cursor) α

namespace RungRule

/-! ### Characters -/

/-- The next character. -/
def peek : RungRule (Option Char) := do
  return (← get).rest.head?

/-- The offset of the next character. -/
def here : RungRule Nat := do
  return (← get).position

/-- Passes over some characters. -/
def skip (n : Nat) : RungRule Unit :=
  modify fun c => { c with rest := c.rest.drop n, position := c.position + n }

/-- Takes the characters while a predicate holds. -/
def takeWhile (p : Char → Bool) : RungRule (List Char) := do
  let cs := (← get).rest.takeWhile p
  skip cs.length
  return cs

/-- Passes over blanks. -/
def skipBlanks : RungRule Unit :=
  discard (takeWhile isBlank)

/-! ### Faults -/

/-- Ends the reading. -/
def fail (kind : RungError.Kind) (position : Option Nat := none) (char expected : Option String := none) :
    RungRule α :=
  throw (.malformed { kind, position, char, expected })

/-- Ends the reading because of the next character, or of its absence. -/
def failUnexpected : RungRule α := do
  match ← peek with
  | some c => fail .unexpectedChar (some (← here)) (some (String.singleton c))
  | none => fail .unexpectedEnd

/-- Ends the reading because something else has to stand at a place. -/
def failExpected (what : String) (position : Nat) : RungRule α :=
  fail .expected (some position) none (some what)

/-- Ends the reading if a value is above its bound. -/
def checkLimit (kind : LimitKind) (value : Nat) (span : Span) : RungRule Unit := do
  match (← read).check kind value span with
  | .ok () => return ()
  | .error e => throw (.limit e)

/-- A series of the given length is not too long. -/
def checkSize (size : Nat) : RungRule Unit := do
  checkLimit .collectionSize size (.single (← here))

/-- Counts a pass through a loop. -/
def countPass : RungRule Unit := do
  modify fun c => { c with passes := c.passes + 1 }
  checkLimit .iterations (← get).passes (.single (← here))

/-- No further pass is allowed. -/
def tooManyPasses : RungRule α := do
  let bound := (← read).maxIterations
  throw (.limit ⟨.iterations, bound, bound + 1, .single (← here)⟩)

/-- The span from an offset to the next character. -/
def spanFrom (start : Nat) : RungRule Span := do
  let stop ← here
  return ⟨start, max start stop, Nat.le_max_left ..⟩

/-- Counts an element that begins at an offset, and gives its span. -/
def element (start : Nat) : RungRule Span := do
  let span ← spanFrom start
  modify fun c => { c with usage := c.usage.addNode }
  checkLimit .nodes (← get).usage.nodes span
  return span

/-! ### Operands -/

/-- The number of characters of an operand, from which on `position` counts.  `quote` is the quote
that is open, and `brackets` are the open brackets with their places, innermost first. -/
def operandLength : (quote : Option Char) → (brackets : List (Char × Nat)) → (position : Nat) →
    List Char → Except RungError Nat
  | _, [], _, [] => .ok 0
  | _, (b, p) :: _, _, [] =>
    .error { kind := if b == '(' then .unclosedParen else .unclosedBracket, position := some p }
  | some q, brackets, p, c :: cs =>
    (operandLength (if c == q then none else some q) brackets (p + 1) cs).map (· + 1)
  | none, brackets, p, c :: cs =>
    if c == '\'' || c == '"' then
      (operandLength (some c) brackets (p + 1) cs).map (· + 1)
    else if Operand.opens c then
      (operandLength none ((c, p) :: brackets) (p + 1) cs).map (· + 1)
    else
      match brackets with
      | [] =>
        if c == ',' || Operand.closes c then .ok 0
        else (operandLength none [] (p + 1) cs).map (· + 1)
      | (b, q) :: outer =>
        if Operand.closes c then
          if (b == '(') == (c == ')') then
            (operandLength none outer (p + 1) cs).map (· + 1)
          else
            .error
              { kind := .unexpectedChar
                position := some p
                char := some (String.singleton c) }
        else (operandLength none ((b, q) :: outer) (p + 1) cs).map (· + 1)

/-- An operand. -/
def operand : RungRule Operand := do
  skipBlanks
  if (← peek) == some '?' then
    skip 1
    skipBlanks
    return none
  else
    let start ← here
    let rest := (← get).rest
    match operandLength none [] start rest with
    | .error e => throw (.malformed e)
    | .ok n =>
      skip n
      let text := trim (rest.take n)
      if text.isEmpty then failExpected "operand" start
      checkLimit .stringLength text.length (← spanFrom start)
      return some (String.ofList text)

/-- The operands up to the closing parenthesis; `size` come before them. -/
def operands (opening : Nat) : (passes size : Nat) → RungRule (List Operand)
  | 0, _ => tooManyPasses
  | left + 1, size => do
    countPass
    let x ← operand
    checkSize (size + 1)
    match ← peek with
    | some ',' =>
      skip 1
      let xs ← operands opening left (size + 1)
      return x :: xs
    | some ')' =>
      skip 1
      return [x]
    | some _ => failExpected "',' or ')'" (← here)
    | none => fail .unclosedParen (some opening)

/-- An instruction. -/
def instruction : RungRule Element := do
  let start ← here
  let mnemonic ← takeWhile isNameChar
  match ← peek with
  | some '(' =>
    let opening ← here
    skip 1
    skipBlanks
    let xs ← match ← peek with
      | some ')' => do
        skip 1
        pure []
      | _ => operands opening (← read).maxIterations 0
    let span ← element start
    return .instruction { mnemonic := String.ofList mnemonic, operands := xs, span }
  | some _ => failExpected "'('" (← here)
  | none => fail .unexpectedEnd

/-! ### Elements -/

/-- The elements of a branch; `size` come before them. -/
def branch (item : RungRule Element) (opening : Nat) : (passes size : Nat) → RungRule (List Element)
  | 0, _ => tooManyPasses
  | left + 1, size => do
    countPass
    skipBlanks
    match ← peek with
    | none => fail .unclosedBracket (some opening)
    | some c =>
      if c == ',' || c == ']' then
        if size = 0 then failExpected "instruction" (← here) else return []
      else
        let x ← item
        checkSize (size + 1)
        let xs ← branch item opening left (size + 1)
        return x :: xs

/-- The branches after the first up to the closing bracket; `size` come before them. -/
def branches (item : RungRule Element) (opening : Nat) :
    (passes size : Nat) → RungRule (List (List Element))
  | 0, _ => tooManyPasses
  | left + 1, size => do
    countPass
    skipBlanks
    match ← peek with
    | some ',' =>
      skip 1
      let b ← branch item opening (← read).maxIterations 0
      checkSize (size + 1)
      let bs ← branches item opening left (size + 1)
      return b :: bs
    | some ']' =>
      skip 1
      return []
    | some _ => failUnexpected
    | none => fail .unclosedBracket (some opening)

/-- A group of branches. -/
def parallel (item : RungRule Element) : RungRule Element := do
  let start ← here
  modify fun c => { c with usage := c.usage.enter }
  checkLimit .depth (← get).usage.depth (.single start)
  skip 1
  let b ← branch item start (← read).maxIterations 0
  let bs ← branches item start (← read).maxIterations 1
  modify fun c => { c with usage := c.usage.leave }
  let span ← element start
  return .parallel span (b :: bs)

/-- No further group may be opened. -/
def tooDeep : RungRule α := do
  let bound := (← read).maxDepth
  throw (.limit ⟨.depth, bound, bound + 1, .single (← here)⟩)

/-- An element that is an instruction or else a group. -/
def elementOr (group : RungRule Element) : RungRule Element := do
  match ← peek with
  | some c =>
    if c == '[' then group
    else if isNameStart c then instruction
    else failUnexpected
  | none => failUnexpected

/-- An element in which groups may be nested `levels` deep. -/
def elementWithin : (levels : Nat) → RungRule Element
  | 0 => elementOr tooDeep
  | below + 1 => elementOr (parallel (elementWithin below))

/-- The elements of a rung up to the semicolon; `size` come before them. -/
def series : (passes size : Nat) → RungRule (List Element)
  | 0, _ => tooManyPasses
  | left + 1, size => do
    countPass
    skipBlanks
    match ← peek with
    | some ';' =>
      skip 1
      return []
    | none => fail .missingTerminator
    | some _ =>
      let x ← elementWithin (← read).maxDepth
      checkSize (size + 1)
      let xs ← series left (size + 1)
      return x :: xs

/-- A whole rung. -/
def rung : RungRule Rung := do
  skipBlanks
  if (← peek).isNone then fail .emptyInput
  let elements ← series (← read).maxIterations 0
  skipBlanks
  if (← peek).isSome then failUnexpected
  return { elements }

end RungRule

/-- The rung that a text is. -/
def readRung (source : List Char) (limits : Limits := {}) : Except RungFault Rung :=
  match limits.check .inputSize (utf8Size source) with
  | .error e => .error (.limit e)
  | .ok () =>
    match RungRule.rung limits { rest := source } with
    | .ok r _ => .ok r
    | .error e _ => .error e

/-- The rung that a line of a routine is, or what is wrong with it; a blank line is an empty rung.
Only a passed limit is a fault. -/
def readLine (source : List Char) (limits : Limits := {}) :
    Except LimitError (Except RungError Rung) :=
  if isAllBlank source then .ok (.ok {})
  else
    match readRung source limits with
    | .ok r => .ok (.ok r)
    | .error (.malformed e) => .ok (.error e)
    | .error (.limit e) => .error e

end Plc.Ladder

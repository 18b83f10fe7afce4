/-
Reading tokens.

A grammar rule (`Rule`) reads tokens from a cursor and gives a result or a fault;
either way it says how far it came.  The `Setting` of a reading stays fixed; its
`Cursor` holds the tokens left, the pragmas not yet taken, the counters, the names
declared around the current place and the errors recovered from.

* `peek`, `advance` — the next token, without and with passing over it;
* `expect`, `unexpected` — what must come next, and the error when it does not;
* `node` — a tree node from a token to the last one read;
* `nested`, `declaring` — brackets around a rule, closed however the rule ends;
* `recovering` — going on after an error.
-/
import Plc.Token.Scan

namespace Plc.Grammar

/-- What stays fixed while a text is read. -/
structure Setting where
  source : List Char
  dialect : Dialect
  limits : Limits
  /-- Errors are collected, and the reading goes on after them. -/
  recovers : Bool
  /-- The token at the end of the text. -/
  finish : Token

/-- How far a reading has come. -/
structure Cursor where
  /-- The tokens left, without pragmas and without the end of the text. -/
  rest : List Token
  /-- The number of tokens passed over. -/
  index : Nat := 0
  /-- The end of the last token passed over. -/
  lastStop : Nat := 0
  /-- The pragmas not yet taken, each list with the index of the token it stands before. -/
  pragmas : List (Nat × List Token) := []
  usage : Usage := {}
  /-- The names declared around the current place, innermost first. -/
  declared : List (List String) := []
  /-- The errors recovered from, in the order of the text. -/
  errors : List SyntaxError := []

/-- A rule of the grammar: it reads from the cursor and gives a result or a fault. -/
abbrev Rule (α : Type) := ReaderT Setting (EStateM Fault Cursor) α

/-! ### The reading -/

/-- The whole text. -/
def sourceText : Rule (List Char) := do
  return (← read).source

/-- The dialect of the text. -/
def dialect : Rule Dialect := do
  return (← read).dialect

/-- The bounds on the reading. -/
def limits : Rule Limits := do
  return (← read).limits

/-- The end of the last token passed over. -/
def lastStop : Rule Nat := do
  return (← get).lastStop

/-- The tokens left. -/
def tokensLeft : Rule (List Token) := do
  return (← get).rest

/-! ### The tokens ahead -/

/-- The token `n` places ahead; past the end, the end of the text. -/
def peekAt (n : Nat) : Rule Token := do
  return (← get).rest.getD n (← read).finish

/-- The next token. -/
def peek : Rule Token := peekAt 0

/-- The lexeme `n` places ahead. -/
def lexemeAt (n : Nat) : Rule Lexeme := do
  return (← peekAt n).lexeme

/-- The next lexeme. -/
def lexeme : Rule Lexeme := lexemeAt 0

/-- The next token is the given one. -/
def sees (t : Terminal) : Rule Bool := do
  return (← lexeme).is t

/-- The text ends here. -/
def atEnd : Rule Bool := do
  return (← lexeme).isFinish

/-- The next token; the cursor passes over it, but stays at the end of the text. -/
def advance : Rule Token := do
  let setting ← read
  let cursor ← get
  match cursor.rest with
  | t :: rest =>
    set { cursor with rest := rest, index := cursor.index + 1, lastStop := t.span.stop }
    return t
  | [] =>
    set { cursor with lastStop := setting.finish.span.stop }
    return setting.finish

/-- Passes over the next token if it is the given one. -/
def accept (t : Terminal) : Rule Bool := do
  if ← sees t then
    let _ ← advance
    return true
  else
    return false

/-! ### Errors -/

/-- Ends the reading with a syntax error. -/
def fail (e : SyntaxError) : Rule α :=
  throw (.grammar e)

/-- The error about a token that does not fit.  A token that is malformed in itself explains
itself; otherwise the error says what was expected, if anything definite was. -/
def unexpectedToken (t : Token) (expected : Option String) : SyntaxError :=
  match t.lexeme with
  | .malformed why =>
    match why with
    | .invalidNumber | .invalidDirectAddress => { kind := why, span := t.span, detail := some t.text }
    | _ => { kind := why, span := t.span }
  | .unknown => { kind := .unknownCharacter, span := t.span, detail := some t.text }
  | .finish => { kind := .unexpectedEnd, span := t.span, expected := expected }
  | _ => { kind := .unexpectedToken, span := t.span, expected := expected, found := some t.describe }

/-- The error about the next token when something else was expected. -/
def unexpected (expected : String) : Rule SyntaxError := do
  return unexpectedToken (← peek) (some expected)

/-- Ends the reading because something else was expected. -/
def failExpecting (expected : String) : Rule α := do
  fail (← unexpected expected)

/-- Ends the reading because a construct of the given kind cannot begin with the next token. -/
def failInvalid (kind : SyntaxError.Kind) : Rule α := do
  let t ← peek
  match t.lexeme with
  | .malformed _ | .unknown | .finish => fail (unexpectedToken t none)
  | _ => fail { kind := kind, span := t.span, detail := some t.text }

/-- The given token; an error when another comes next. -/
def expect (t : Terminal) : Rule Token := do
  if ← sees t then advance else failExpecting t.quoted

/-- The token that closes what `opener` opened.  At the end of the text the error is about the
opener. -/
def expectClosing (t : Terminal) (opener : Token) (kind : SyntaxError.Kind) : Rule Unit := do
  if ← sees t then
    let _ ← advance
  else if ← atEnd then
    fail { kind := kind, span := opener.span }
  else
    failExpecting t.quoted

/-- A semicolon.  An error is placed just after the last token read, unless the next token is
malformed in itself. -/
def expectSemicolon : Rule Unit := do
  let t ← peek
  match t.lexeme with
  | .mark .semicolon =>
    let _ ← advance
  | .malformed _ | .unknown => failExpecting (Terminal.mark .semicolon).quoted
  | _ =>
    fail {
      kind := .missingSemicolon
      span := Span.single (← lastStop)
      expected := some (Terminal.mark .semicolon).quoted
      found := some t.describe }

/-- An unquoted name. -/
def expectName (expected : String) : Rule Token := do
  match ← lexeme with
  | .name => advance
  | _ => failExpecting expected

/-- A name, quoted where the dialect has quoted names. -/
def expectAnyName (expected : String) : Rule Token := do
  match ← lexeme with
  | .name => advance
  | .quotedName _ => if (← dialect).quotedNames then advance else failExpecting expected
  | _ => failExpecting expected

/-! ### Bounds -/

/-- Ends the reading because a bound is passed. -/
def failLimit (e : LimitError) : Rule α :=
  throw (.limit e)

/-- Ends the reading if a value is above its bound. -/
def checkLimit (kind : LimitKind) (value : Nat) (span : Span) : Rule Unit := do
  match (← limits).check kind value span with
  | .ok () => return ()
  | .error e => failLimit e

/-- A loop has run as often as it may. -/
def tooManyPasses : Rule α := do
  let bound := (← limits).maxIterations
  failLimit ⟨.iterations, bound, bound + 1, (← peek).span⟩

/-- A list of the given size, whose last item is at the given place, is not too long. -/
def checkSize (size : Nat) (span : Span) : Rule Unit :=
  checkLimit .collectionSize size span

/-- The span from a place to the last token read. -/
def spanFrom (start : Span) : Rule Span := do
  let stop ← lastStop
  return ⟨start.start, max stop start.stop, Nat.le_trans start.ordered (Nat.le_max_right ..)⟩

/-- Counts one more node, at the given place. -/
def recordNode (span : Span) : Rule Unit := do
  modify fun c => { c with usage := c.usage.addNode }
  checkLimit .nodes (← get).usage.nodes span

/-- A node that spans from a place to the last token read. -/
def node (start : Span) (build : Span → α) : Rule α := do
  let span ← spanFrom start
  recordNode span
  return build span

/-! ### Brackets around a rule -/

/-- Changes the cursor before a rule and again after it, whether it succeeds or fails. -/
def bracket (before after : Cursor → Cursor) (rule : Rule α) : Rule α := fun setting cursor =>
  match rule setting (before cursor) with
  | .ok a cursor' => .ok a (after cursor')
  | .error e cursor' => .error e (after cursor')

/-- One more construct is open. -/
def Cursor.enter (c : Cursor) : Cursor := { c with usage := c.usage.enter }

/-- One construct fewer is open. -/
def Cursor.leave (c : Cursor) : Cursor := { c with usage := c.usage.leave }

/-- Runs a rule inside one more open construct. -/
def nested (rule : Rule α) : Rule α :=
  bracket Cursor.enter Cursor.leave rule

/-- No further construct may be opened. -/
def tooDeep : Rule α := do
  modify Cursor.enter
  failLimit ⟨.depth, (← limits).maxDepth, (← get).usage.depth, (← peek).span⟩

/-- Runs a rule in which the given names are declared. -/
def declaring (names : List String) (rule : Rule α) : Rule α :=
  bracket (fun c => { c with declared := names :: c.declared })
    (fun c => { c with declared := c.declared.tail }) rule

/-- The name is declared around the current place. -/
def isDeclared (name : String) : Rule Bool := do
  return (← get).declared.any (·.contains name)

/-! ### Loops -/

/-- Repeats a step until `look` says what the result is.  Every pass counts against the bound on
passes; `passes` are left. -/
def repeating (look : α → Rule (β ⊕ γ)) (step : α → γ → Rule (β ⊕ α)) : Nat → α → Rule β
  | passes, a => do
    match ← look a with
    | .inl b => return b
    | .inr c =>
      match passes with
      | 0 => tooManyPasses
      | left + 1 =>
        match ← step a c with
        | .inl b => return b
        | .inr a' => repeating look step left a'

/-- Reads items while `more` holds.  A pass may give any number of items; `item` is told how many
there are already and checks the size of the list itself. -/
def many (more : Rule Bool) (item : Nat → Rule (List α)) : Nat → Nat → Rule (List α)
  | passes, size => do
    if ← more then
      match passes with
      | 0 => tooManyPasses
      | left + 1 =>
        let xs ← item size
        let ys ← many more item left (size + xs.length)
        return xs ++ ys
    else
      return []

/-- Reads items while `more` holds and a comma follows; every pass counts. -/
def listed (more : Rule Bool) (item : Rule α) (spanOf : α → Span) : Nat → Nat → Rule (List α)
  | passes, size => do
    if ← more then
      match passes with
      | 0 => tooManyPasses
      | left + 1 =>
        let x ← item
        checkSize (size + 1) (spanOf x)
        if ← accept Mark.comma then
          let xs ← listed more item spanOf left (size + 1)
          return x :: xs
        else
          return [x]
    else
      return []

/-- Reads the items after the commas that follow.  There is room for `room` more. -/
def commaTail (item : Rule α) (spanOf : α → Span) (room : Nat) : Rule (List α) := do
  if ← accept Mark.comma then
    let x ← item
    match room with
    | 0 =>
      let bound := (← limits).maxCollectionSize
      failLimit ⟨.collectionSize, bound, bound + 1, spanOf x⟩
    | left + 1 =>
      let xs ← commaTail item spanOf left
      return x :: xs
  else
    return []

/-- Reads one item or more, with commas between them. -/
def commaList (item : Rule α) (spanOf : α → Span) : Rule (List α) := do
  let x ← item
  let xs ← commaTail item spanOf ((← limits).maxCollectionSize - 1)
  return x :: xs

/-- Repeats a step that passes over at least one token, until it gives nothing new. -/
def consuming (step : α → Rule (Option α)) : Nat → α → Rule α
  | 0, a => return a
  | left + 1, a => do
    match ← step a with
    | some a' => consuming step left a'
    | none => return a

/-- Repeats a step that passes over at least one token, until it gives nothing new; there cannot be
more passes than tokens, and one that gives nothing. -/
def whileTokens (step : α → Rule (Option α)) (a : α) : Rule α := do
  consuming step ((← tokensLeft).length + 1) a

/-- The number of passes that a loop may make. -/
def passes : Rule Nat := do
  return (← limits).maxIterations

/-! ### Recovery -/

/-- Skips to the next place where reading may go on: past a semicolon, if those count, or before a
token at which `stops` holds. -/
def skipTo (stops : Lexeme → Bool) (pastSemicolon : Bool) : Rule Unit := do
  let look (_ : Unit) : Rule (Unit ⊕ Lexeme) := do
    let l ← lexeme
    return if l.isFinish then .inl () else .inr l
  let step (_ : Unit) (l : Lexeme) : Rule (Unit ⊕ Unit) := do
    if pastSemicolon && l.is Mark.semicolon then
      let _ ← advance
      return .inl ()
    else if stops l then
      return .inl ()
    else
      let _ ← advance
      return .inr ()
  repeating look step (← passes) ()

/-- Records an error. -/
def report (e : SyntaxError) : Rule Unit :=
  modify fun c => { c with errors := c.errors ++ [e] }

/-- Goes on after an error: records it and skips to the next likely boundary.  When no token was
passed over since the one with the given index, passes over it. -/
def resumeAfter (e : SyntaxError) (start : Nat) (stops : Lexeme → Bool) (pastSemicolon : Bool) :
    Rule Unit := do
  report e
  skipTo stops pastSemicolon
  if (← get).index == start && !(← atEnd) then
    let _ ← advance

/-- Runs a rule.  When the setting recovers and the rule ends with a syntax error, goes on after
the error and gives nothing; at least one token is passed over. -/
def recovering (stops : Lexeme → Bool) (pastSemicolon : Bool) (rule : Rule α) :
    Rule (Option α) := fun setting cursor =>
  match rule setting cursor with
  | .ok a cursor' => .ok (some a) cursor'
  | .error (.grammar e) cursor' =>
    if setting.recovers then
      match resumeAfter e cursor.index stops pastSemicolon setting cursor' with
      | .ok () cursor'' => .ok none cursor''
      | .error fault cursor'' => .error fault cursor''
    else
      .error (.grammar e) cursor'
  | .error fault cursor' => .error fault cursor'

/-! ### Beginning and end -/

/-- Takes the pragmas out of a list of tokens.  `index` tokens come before, and `pending` pragmas
wait for the next token. -/
def liftPragmas : Nat → List Token → List Token → List Token × List (Nat × List Token)
  | index, pending, [] => ([], if pending.isEmpty then [] else [(index, pending)])
  | index, pending, t :: ts =>
    match t.lexeme with
    | .pragma _ => liftPragmas index (pending ++ [t]) ts
    | _ =>
      let (rest, lifted) := liftPragmas (index + 1) [] ts
      (t :: rest, if pending.isEmpty then lifted else (index, pending) :: lifted)

/-- The tokens of a text, if the limits allow its size and their number. -/
def tokensWithin (limits : Limits) (d : Dialect) (source : List Char) : Except Fault (List Token) :=
  match limits.check .inputSize (utf8Size source) with
  | .error e => .error (.limit e)
  | .ok () =>
    let (ts, fault) := scan d source
    match ts.drop limits.maxIterations with
    | t :: _ => .error (.limit ⟨.iterations, limits.maxIterations, limits.maxIterations + 1, t.span⟩)
    | [] =>
      match fault with
      | some f => .error f
      | none => .ok ts

/-- The cursor before some tokens, the last of which is the end of the text. -/
def Cursor.before (ts : List Token) : Cursor :=
  let (rest, pragmas) := liftPragmas 0 [] ts.dropLast
  { rest := rest, pragmas := pragmas }

/-- What a run gives: a result and the errors recovered from, or a fault. -/
def outcome : EStateM.Result Fault Cursor α → Except Fault (α × List SyntaxError)
  | .ok a cursor => .ok (a, cursor.errors)
  | .error f _ => .error f

/-- Runs a rule on a text from its beginning. -/
def run (rule : Rule α) (source : List Char) (limits : Limits) (d : Dialect) (recovers : Bool) :
    Except Fault (α × List SyntaxError) :=
  match tokensWithin limits d source with
  | .error f => .error f
  | .ok ts =>
    let finish := ts.getLastD (Scanner.finish source.length)
    outcome (rule ⟨source, d, limits, recovers, finish⟩ (.before ts))

/-- The text must end here. -/
def expectEnd : Rule Unit := do
  if !(← atEnd) then failExpecting "end of input"

end Plc.Grammar

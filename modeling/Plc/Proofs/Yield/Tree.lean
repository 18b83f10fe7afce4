/-
The words that a tree is written with.

The yield of a tree is the words of its text in order: its literals and names, its operators and
reserved words, and the punctuation of its constructs.  Two kinds of words leave no trace in a tree:
a plus sign before an operand, and a semicolon that may be left out.

* `Expr.yield`, `Stmt.yield` — the words of a tree, when those of a text without parts are given;
* `withoutSigns` — words without the plus signs before operands;
* `withoutOptional` — words without the semicolons that may be left out.
-/
import Plc.Proofs.RoundTrip.Layout
import Plc.Proofs.Token.Stretch

namespace Plc

/-! ### Words that leave no trace -/

namespace Lexeme

/-- An operand may end with the lexeme. -/
def endsOperand : Lexeme → Bool
  | .name | .quotedName _ | .integer _ | .real _ | .string _ | .wideString _ | .duration _ | .date _
  | .timeOfDay _ | .dateAndTime _ | .address _ | .keyword .TRUE | .keyword .FALSE | .keyword .NULL
  | .mark .rightParen | .mark .rightBracket | .mark .caret => true
  | _ => false

/-- The lexeme may be part of a literal, of an address or of a name. -/
def isInOperand : Lexeme → Bool
  | .keyword .STRING | .keyword .WSTRING | .mark .hash | .mark .minus => true
  | .mark _ => false
  | l => l.endsOperand

/-- The lexeme closes a construct that a semicolon may follow. -/
def closesConstruct (l : Lexeme) : Bool :=
  l.isAmong [.END_IF, .END_CASE, .END_FOR, .END_WHILE, .END_REPEAT]

end Lexeme

/-- The words without the plus signs before operands: those that no operand stands before.
`operand` says whether one stands before the first word. -/
def withoutSigns : (operand : Bool) → List Word → List Word
  | _, [] => []
  | operand, w :: ws =>
    if w.lexeme.is Mark.plus && !operand then withoutSigns false ws
    else w :: withoutSigns w.lexeme.endsOperand ws

/-- The semicolon between two words may be left out: it follows the end of a construct, or stands
between a condition and `END_REPEAT`. -/
def isOptional (before w after : Option Word) : Bool :=
  w.any (·.lexeme.is Mark.semicolon) &&
    (before.any (·.lexeme.closesConstruct) || after.any (·.lexeme.is Keyword.END_REPEAT))

/-- The words without the semicolons that may be left out.  `before` is the word before them. -/
def withoutOptional : (before : Option Word) → List Word → List Word
  | _, [] => []
  | before, w :: ws =>
    if isOptional before (some w) ws.head? then withoutOptional (some w) ws
    else w :: withoutOptional (some w) ws

/-- A sign before an operand is left out, any other word is kept. -/
theorem withoutSigns_concat (operand : Bool) (ws : List Word) (w : Word) :
    withoutSigns operand (ws ++ [w]) = withoutSigns operand ws ++
      if w.lexeme.is Mark.plus && !(ws.getLast?.elim operand (·.lexeme.endsOperand)) then [] else [w] := by
  induction ws generalizing operand with
  | nil => simp [withoutSigns]
  | cons v ws ih =>
    have last : (v :: ws).getLast?.elim operand (·.lexeme.endsOperand) =
        ws.getLast?.elim v.lexeme.endsOperand (·.lexeme.endsOperand) := by
      cases ws with
      | nil => rfl
      | cons u ws =>
        rw [List.getLast?_cons_cons]
        cases hu : (u :: ws).getLast? with
        | none => simp at hu
        | some w => rfl
    rw [List.cons_append, withoutSigns, withoutSigns, last]
    split
    · next sign =>
      have none : v.lexeme.endsOperand = false := by
        rw [Bool.and_eq_true] at sign
        cases hv : v.lexeme <;> simp [hv, Lexeme.is] at sign
        simp [Lexeme.endsOperand, sign]
      rw [ih, none]
    · rw [ih, List.cons_append]

/-- The words of two texts in a row, unless a semicolon at the end of the first may be left out
because of the second. -/
theorem withoutOptional_append (before : Option Word) (ws : List Word) {vs : List Word}
    (h : ∀ w ∈ ws.getLast?, w.lexeme.is Mark.semicolon = true →
      vs.head?.any (·.lexeme.is Keyword.END_REPEAT) = false) :
    withoutOptional before (ws ++ vs) =
      withoutOptional before ws ++ withoutOptional (ws.getLast?.or before) vs := by
  -- Induction on the first text; what is left out depends on the words on both sides.
  induction ws generalizing before with
  | nil => rfl
  | cons w ws ih =>
    have last : (w :: ws).getLast?.or before = ws.getLast?.or (some w) := by
      cases ws with
      | nil => rfl
      | cons u us =>
        rw [List.getLast?_cons_cons]
        cases hu : (u :: us).getLast? with
        | none => simp at hu
        | some v => rfl
    have same : isOptional before (some w) (ws ++ vs).head? = isOptional before (some w) ws.head? := by
      cases ws with
      | cons u us => rfl
      | nil =>
        rw [List.nil_append, List.head?_nil]
        unfold isOptional
        cases semicolon : w.lexeme.is Mark.semicolon with
        | false => simp [semicolon]
        | true => simp [semicolon, h w rfl semicolon]
    have rest := ih (some w) fun v hv => by
      refine h v ?_
      rw [Option.mem_def, List.getLast?_cons, Option.mem_def.1 hv]
      rfl
    rw [List.cons_append, withoutOptional, withoutOptional, same, last, rest]
    split <;> rfl

/-- A word that is neither a semicolon nor `END_REPEAT` is kept, and so is what stands before it. -/
theorem withoutOptional_concat (before : Option Word) (ws : List Word) {w : Word}
    (semicolon : w.lexeme.is Mark.semicolon = false) (close : w.lexeme.is Keyword.END_REPEAT = false) :
    withoutOptional before (ws ++ [w]) = withoutOptional before ws ++ [w] := by
  have kept (last : Option Word) : isOptional last (some w) none = false := by
    simp [isOptional, semicolon]
  have split := @withoutOptional_append before ws [w] fun _ _ _ => close
  rw [split, withoutOptional, List.head?_nil, kept]
  rfl

/-! ### Trees -/

/-- The words of a name and of members after points. -/
def dottedYield (leaf : String → List Word) : List String → List Word
  | [] => []
  | n :: ns => .name n :: ns.flatMap fun m => .mark .dot :: leaf m

theorem segments_of_dotless {n : String} (h : '.' ∉ n.toList) : segments n = [n] := by
  rw [segments, List.splitOn_eq_singleton h, List.map_singleton, String.ofList_toList]

theorem segments_member (p : String) {m : String} (h : '.' ∉ m.toList) :
    segments (p ++ "." ++ m) = segments p ++ [m] := by
  have last := segments_of_dotless h
  unfold segments List.splitOn at *
  rw [String.toList_append, String.toList_append, List.append_assoc]
  show List.map _ (List.splitOnP _ (p.toList ++ '.' :: m.toList)) = _
  rw [List.splitOnP_append_cons _ _ (by rfl), List.map_append, last]

theorem dottedYield_concat (leaf : String → List Word) {ns : List String} (h : ns ≠ [])
    (m : String) : dottedYield leaf (ns ++ [m]) = dottedYield leaf ns ++ .mark .dot :: leaf m := by
  obtain ⟨n, ns, rfl⟩ := List.exists_cons_of_ne_nil h
  simp [dottedYield]

section

variable (leaf : String → List Word)

mutual

/-- The words of a variable. -/
def Variable.yield : Variable → List Word
  | .named _ n .plain => [.name n]
  | .named _ n .quoted => [⟨.quotedName n, "\"" ++ n ++ "\""⟩]
  | .named _ n .blockLocal => [.mark .hash, .name n]
  | .address _ text _ => leaf text
  | .member _ b m => b.yield ++ .mark .dot :: leaf m
  | .element _ b is =>
    b.yield ++ .mark .leftBracket :: (commaWords (Expr.yieldEach is) ++ [.mark .rightBracket])
  | .deref _ b => b.yield ++ [.mark .caret]

/-- The words of an expression. -/
def Expr.yield : Expr → List Word
  | .literal _ l => leaf l.text
  | .variable v => v.yield
  | .unary _ .not x => .keyword .NOT :: x.yield
  | .unary _ .neg x => .mark .minus :: x.yield
  | .binary _ op l r => l.yield ++ op.word :: r.yield
  | .paren _ x => parenWords x.yield
  | .call _ name args =>
    dottedYield leaf (segments name) ++ parenWords (commaWords (Arg.yieldEach args))
  | .repeated _ n (some x) => leaf (toString n) ++ parenWords x.yield
  | .repeated _ n none => leaf (toString n) ++ parenWords []
  | .arrayInit _ es =>
    .mark .leftBracket :: (commaWords (Expr.yieldEach es) ++ [.mark .rightBracket])
  | .structInit _ fs => parenWords (commaWords (Arg.yieldEach fs))

/-- The words of an argument; an empty place has none. -/
def Arg.yield : Arg → List Word
  | .positional _ x => x.yield
  | .named _ n x => .name n :: .mark .assign :: x.yield
  | .output _ n v negated =>
    (if negated then [.keyword .NOT] else []) ++ .name n :: .mark .arrow :: v.yield
  | .inferred _ => []

/-- The words of each expression of a list. -/
def Expr.yieldEach : List Expr → List (List Word)
  | [] => []
  | x :: xs => x.yield :: Expr.yieldEach xs

/-- The words of each argument of a list. -/
def Arg.yieldEach : List Arg → List (List Word)
  | [] => []
  | x :: xs => x.yield :: Arg.yieldEach xs

end

theorem Variable.yield_withSpan (s : Span) (v : Variable) :
    (v.withSpan s).yield leaf = v.yield leaf := by
  cases v with
  | named _ n style => cases style <;> rfl
  | _ => rfl

/-- Another place is written the same. -/
theorem Expr.yield_withSpan (s : Span) (e : Expr) : (e.withSpan s).yield leaf = e.yield leaf := by
  cases e with
  | «variable» v => exact Variable.yield_withSpan leaf s v
  | unary _ op x => cases op <;> rfl
  | repeated _ n x => cases x <;> rfl
  | _ => rfl

theorem Expr.yieldEach_eq (xs : List Expr) : Expr.yieldEach leaf xs = xs.map (Expr.yield leaf) := by
  induction xs with
  | nil => rfl
  | cons x xs ih => rw [yieldEach, ih, List.map_cons]

theorem Arg.yieldEach_eq (xs : List Arg) : Arg.yieldEach leaf xs = xs.map (Arg.yield leaf) := by
  induction xs with
  | nil => rfl
  | cons x xs ih => rw [yieldEach, ih, List.map_cons]

theorem Expr.yield_call (s : Span) (name : String) (args : List Arg) :
    (Expr.call s name args).yield leaf =
      dottedYield leaf (segments name) ++ parenWords (commaWords (args.map (Arg.yield leaf))) := by
  rw [yield, Arg.yieldEach_eq]

/-- The words of a label. -/
def CaseSelector.yield : CaseSelector → List Word
  | .value _ x => x.yield leaf
  | .range _ low high => low.yield leaf ++ .mark .range :: high.yield leaf

mutual

/-- The words of a statement, the semicolons that may be left out aside. -/
def Stmt.yield : Stmt → List Word
  | .assignment _ target op value =>
    target.yield leaf ++ .mark op.mark :: (value.yield leaf ++ [.mark .semicolon])
  | .ifThen _ first elsifs otherwise =>
    .keyword .IF :: (first.yield ++ (IfBranch.yieldAll elsifs ++
      (Stmt.elseYield otherwise ++ [.keyword .END_IF])))
  | .caseOf _ selector branches otherwise =>
    .keyword .CASE :: (selector.yield leaf ++ .keyword .OF ::
      (CaseBranch.yieldAll branches ++ (Stmt.elseYield otherwise ++ [.keyword .END_CASE])))
  | .forLoop _ control start stop step body =>
    .keyword .FOR :: .name control :: .mark .assign :: (start.yield leaf ++
      .keyword .TO :: (stop.yield leaf ++
        ((match step with
          | some x => .keyword .BY :: x.yield leaf
          | none => []) ++ .keyword .DO :: (Stmt.yieldAll body ++ [.keyword .END_FOR]))))
  | .whileLoop _ condition body =>
    .keyword .WHILE :: (condition.yield leaf ++
      .keyword .DO :: (Stmt.yieldAll body ++ [.keyword .END_WHILE]))
  | .repeatLoop _ body condition =>
    .keyword .REPEAT :: (Stmt.yieldAll body ++
      .keyword .UNTIL :: (condition.yield leaf ++ [.keyword .END_REPEAT]))
  | .exitLoop _ => [.keyword .EXIT, .mark .semicolon]
  | .nextPass _ => [.keyword .CONTINUE, .mark .semicolon]
  | .leave _ value =>
    .keyword .RETURN :: ((match value with
      | some x => x.yield leaf
      | none => []) ++ [.mark .semicolon])
  | .call _ _ name args =>
    dottedYield leaf (segments name) ++
      (parenWords (commaWords (Arg.yieldEach leaf args)) ++ [.mark .semicolon])
  | .invoke _ callee args =>
    callee.yield leaf ++ (parenWords (commaWords (Arg.yieldEach leaf args)) ++ [.mark .semicolon])
  | .empty _ => [.mark .semicolon]
  | .goto _ label => [.keyword .GOTO, .name label, .mark .semicolon]
  | .label _ name => [.name name, .mark .colon]
  | .region _ title body =>
    .keyword .REGION :: (leaf title ++ (Stmt.yieldAll body ++ [.keyword .END_REGION]))

/-- The words of a branch after the word that opens it. -/
def IfBranch.yield : IfBranch → List Word
  | .mk _ condition body => condition.yield leaf ++ .keyword .THEN :: Stmt.yieldAll body

/-- The words of a branch. -/
def CaseBranch.yield : CaseBranch → List Word
  | .mk _ selectors body =>
    commaWords (selectors.map (CaseSelector.yield leaf)) ++ .mark .colon :: Stmt.yieldAll body

/-- The words of a list of statements. -/
def Stmt.yieldAll : List Stmt → List Word
  | [] => []
  | s :: ss => s.yield ++ Stmt.yieldAll ss

/-- The words of the branches after the first. -/
def IfBranch.yieldAll : List IfBranch → List Word
  | [] => []
  | b :: bs => .keyword .ELSIF :: (b.yield ++ IfBranch.yieldAll bs)

/-- The words of some branches. -/
def CaseBranch.yieldAll : List CaseBranch → List Word
  | [] => []
  | b :: bs => b.yield ++ CaseBranch.yieldAll bs

/-- The words of what stands after `ELSE`, if it comes. -/
def Stmt.elseYield : Option (List Stmt) → List Word
  | some ss => .keyword .ELSE :: Stmt.yieldAll ss
  | none => []

end

theorem Stmt.yield_call (s callSpan : Span) (name : String) (args : List Arg) :
    (Stmt.call s callSpan name args).yield leaf = dottedYield leaf (segments name) ++
      (parenWords (commaWords (args.map (Arg.yield leaf))) ++ [.mark .semicolon]) := by
  rw [yield, Arg.yieldEach_eq]

theorem Stmt.yield_invoke (s : Span) (callee : Variable) (args : List Arg) :
    (Stmt.invoke s callee args).yield leaf = callee.yield leaf ++
      (parenWords (commaWords (args.map (Arg.yield leaf))) ++ [.mark .semicolon]) := by
  rw [yield, Arg.yieldEach_eq]

theorem Stmt.yieldAll_append (ss ss' : List Stmt) :
    Stmt.yieldAll leaf (ss ++ ss') = Stmt.yieldAll leaf ss ++ Stmt.yieldAll leaf ss' := by
  induction ss with
  | nil => rfl
  | cons s ss ih => rw [List.cons_append, yieldAll, yieldAll, ih, List.append_assoc]

theorem IfBranch.yieldAll_append (bs bs' : List IfBranch) :
    IfBranch.yieldAll leaf (bs ++ bs') = IfBranch.yieldAll leaf bs ++ IfBranch.yieldAll leaf bs' := by
  induction bs with
  | nil => rfl
  | cons b bs ih => simp [yieldAll, ih]

theorem CaseBranch.yieldAll_append (bs bs' : List CaseBranch) :
    CaseBranch.yieldAll leaf (bs ++ bs') =
      CaseBranch.yieldAll leaf bs ++ CaseBranch.yieldAll leaf bs' := by
  induction bs with
  | nil => rfl
  | cons b bs ih => simp [yieldAll, ih]

end

end Plc

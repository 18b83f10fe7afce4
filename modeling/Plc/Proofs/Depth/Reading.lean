/-
How deep the trees are that a reading gives.

Constructs count against the bound on the depth where a rule opens one more.  One construct has room
for nine levels of an expression: six for operators that bind tighter and tighter, and three for the
call, its argument and the variable in it.  Chains that loops read count as one level; they are bounded
by the number of nodes only, and so `1 + 1 + …` can be higher than nine times the bound.

* `climb_shallow` — an operator takes one level more than its right operand;
* `expression_shallow`, `statement_shallow` — the levels of an expression and of a statement;
* `Reading.levels_le` — nine levels for each construct that may be opened;
* `Reading.height_not_le` — chains are higher.
-/
import Plc.Proofs.Depth.Way
import Plc.Proofs.Limits.Within

namespace Plc

namespace Grammar

open Node (Shallow)

variable {l : Limits} {u p e : Rule Expr} {st : Rule Stmt} {k m : Nat}

/-! ### Operators -/

/-- No expression that the rule gives has more levels. -/
abbrev EnsuresShallow (l : Limits) (k : Nat) (e : Rule Expr) : Prop :=
  Ensures l e fun x => Shallow k (.expr x)

theorem precedence_bounds (op : BinaryOp) : 1 ≤ op.precedence ∧ op.precedence ≤ 7 ∧
    (op ≠ .power → op.precedence ≤ 6) := by
  cases op <;> decide

/-- Operators of precedence `least` and tighter.  A right operand has only tighter operators in it,
and is one level shallower for each step up. -/
theorem climb_shallow (hu : EnsuresShallow l (m - 6) u) (hp : EnsuresShallow l (m - 7) p)
    (tighter : Nat) {least : Nat} (hl : 1 ≤ least) (hl' : least ≤ 7) :
    EnsuresShallow l (m - (least - 1)) (climb u p tighter least) := by
  have operand : EnsuresShallow l (m - (least - 1)) u := hu.imp fun _ h => h.mono (by omega)
  -- Induction on the levels of precedence that are left. The left operand has grown to the level of
  -- the loop, the right one comes from above it.
  induction tighter generalizing least with
  | zero => exact operand
  | succ tighter ih =>
    refine operand.bind fun first hfirst => .skip fun n => ?_
    refine .repeating_seen (P := fun x => Shallow (m - (least - 1)) (.expr x))
      (J := fun op => least ≤ op.precedence) (fun left hleft => ?_) (fun left op hleft hop => ?_) n
      hfirst
    · refine .skip fun lexeme => ?_
      split
      · split
        · next binds => exact .pure binds
        · exact .pure hleft
      · exact .pure hleft
    · obtain ⟨low, high, tight⟩ := precedence_bounds op
      -- Only a power has its right operand on its own level, which is the last one.
      have right : EnsuresShallow l (m - op.precedence)
          (if op = .power then p else climb u p tighter (op.precedence + 1)) := by
        split
        · next same =>
          subst same
          exact hp
        · next other =>
          have bound := tight other
          exact ih (by omega) (by omega) (hu.imp fun _ h => h.mono (by omega))
      refine .skip fun _ => right.bind fun x hx => ?_
      refine Ensures.bind (.node fun span => ?_) fun y hy => .pure hy
      have opens := hx.pos
      obtain ⟨j, hj⟩ : ∃ j, m - (least - 1) = j + 1 := ⟨m - least, by omega⟩
      rw [hj] at hleft ⊢
      exact .binary hleft (hx.mono (by omega))

theorem binaryFrom_shallow (hu : EnsuresShallow l (m - 6) u) (hp : EnsuresShallow l (m - 7) p)
    {least : Nat} (hl : 1 ≤ least) (hl' : least ≤ 7) :
    EnsuresShallow l (m - (least - 1)) (binaryFrom u p least) :=
  climb_shallow hu hp _ hl hl'

/-! ### Literals -/

theorem literal_shallow (t : Token) (x : Literal) : EnsuresShallow l (k + 1) (literal t x) := by
  refine .skip fun _ => ?_
  split
  · exact .skip fun _ => .node fun _ => .leaf rfl
  · exact .node fun _ => .leaf rfl

theorem timeLiteral_shallow (t : Token) (value : Except Fault Literal.Value) :
    EnsuresShallow l (k + 1) (timeLiteral t value) := by
  refine .skip fun _ => ?_
  cases value with
  | ok v => exact .node fun _ => .leaf rfl
  | error f => exact .throw f

theorem typedLiteral_shallow : EnsuresShallow l (k + 1) typedLiteral := by
  have typed (type : Token) (value : Literal.Value) :
      EnsuresShallow l (k + 1) (typedNode type value) :=
    .skip fun _ => .skip fun _ => .node fun _ => .leaf rfl
  refine .skip fun type => .skip fun _ => .skip fun minus => .skip fun t => ?_
  split
  · exact .ite (.failExpecting _) (.skip fun _ => typed _ _)
  · exact .skip fun _ => typed _ _
  · exact .skip fun _ => typed _ _
  · exact .failExpecting _
  · exact .ite (.failExpecting _) (.skip fun _ => typed _ _)
  · exact .failExpecting _

/-! ### Variables and calls -/

theorem variableRoot_shallow :
    Ensures l variableRoot fun v => Shallow (k + 1) (.expr (.variable v)) := by
  refine .skip fun t => .skip fun d => ?_
  dsimp only
  split
  · exact .skip fun _ => .node fun _ => .leaf rfl
  · exact .ite (.skip fun _ => .node fun _ => .leaf rfl) (.failInvalid _)
  · exact .ite (.skip fun _ => .skip fun name => .node fun _ => .leaf rfl) (.failInvalid _)
  · exact .skip fun _ => .node fun _ => .leaf rfl
  · exact .failInvalid _

/-- Of the items nothing else is asked than what each of them has. -/
theorem Ensures.commaList_all {α : Type} {item : Rule α} {P : α → Prop} {spanOf : α → Span}
    (h : Ensures l item P) : Ensures l (Grammar.commaList item spanOf) fun xs => ∀ x ∈ xs, P x := by
  refine h.bind fun x hx => .skip fun limits => (Ensures.commaTail h _).bind fun xs hxs => ?_
  exact .pure (List.forall_mem_cons.2 ⟨hx, hxs.1⟩)

section Parts

variable (he : EnsuresShallow l k e)
include he

theorem variableAccess_shallow {v : Variable} (hv : Shallow (k + 1) (.expr (.variable v))) :
    Ensures l (variableAccess e v) (Sum.elim (fun w => Shallow (k + 1) (.expr (.variable w)))
      fun w => Shallow (k + 1) (.expr (.variable w))) := by
  refine .skip fun dot => .skip fun next => .ite ?_ ?_
  · refine .skip fun _ => .skip fun member => ?_
    exact Ensures.bind (.node fun span => hv.member) fun w hw => .pure hw
  refine .skip fun bracket => .ite ?_ ?_
  · refine .skip fun opener => (Ensures.commaList_all he).bind fun indices h => .skip fun _ => ?_
    exact Ensures.bind (.node fun span => hv.element h) fun w hw => .pure hw
  refine .skip fun caret => .skip fun d => .ite ?_ (.pure hv)
  exact .skip fun _ => Ensures.bind (.node fun span => hv.deref) fun w hw => .pure hw

/-- The indices of a variable are on the level below it. -/
theorem variableWith_shallow :
    Ensures l (variableWith e) fun v => Shallow (k + 1) (.expr (.variable v)) := by
  refine (variableRoot_shallow (k := k)).bind fun root hroot => .skip fun n => ?_
  refine .repeating (P := fun v => Shallow (k + 1) (.expr (.variable v))) (fun v hv => ?_)
    (fun v _ hv => variableAccess_shallow he hv) n hroot
  exact .pure trivial

theorem argument_shallow : Ensures l (argument e) fun a => Shallow (k + 2) (.arg a) := by
  have target := variableWith_shallow he
  refine .skip fun start => .skip fun next => .ite ?_ (.ite ?_ (.skip fun third => .ite ?_ ?_))
  · refine .skip fun _ => .skip fun _ => he.bind fun x hx => .node fun span => ?_
    exact .of_children rfl (List.forall_mem_singleton.2 (hx.mono (Nat.le_succ k)))
  · refine .skip fun _ => .skip fun _ => target.bind fun v hv => .node fun span => ?_
    exact .of_children rfl (List.forall_mem_singleton.2 hv)
  · refine .skip fun _ => .skip fun name => .skip fun _ => target.bind fun v hv => ?_
    exact .node fun span => .of_children rfl (List.forall_mem_singleton.2 hv)
  · refine he.bind fun x hx => .node fun span => ?_
    exact .of_children rfl (List.forall_mem_singleton.2 (hx.mono (Nat.le_succ k)))

theorem callArgs_shallow :
    Ensures l (callArgs e) fun args => ∀ a ∈ args, Shallow (k + 2) (.arg a) := by
  refine .skip fun opener => .skip fun b => .ite (.pure nofun) ?_
  have gap : Ensures l (argumentOrGap e) fun a => Shallow (k + 2) (.arg a) := by
    refine .skip fun comma => .skip fun close => .ite ?_ (argument_shallow he)
    exact .skip fun d => .ite (.skip fun t => .node fun span => .leaf rfl) (.failInvalid _)
  refine .skip fun n => (Ensures.listed gap n (Nat.zero_le _)).bind fun args h => ?_
  exact .skip fun _ => .pure h.1

theorem variableOrCall_shallow : EnsuresShallow l (k + 3) (variableOrCall e) := by
  refine (variableWith_shallow he).bind fun v hv => .skip fun b => .ite ?_ ?_
  · split
    · exact .skip fun _ => .throw _
    · refine (callArgs_shallow he).bind fun args h => .node fun span => ?_
      exact .of_children rfl (List.forall_mem_map.2 h)
  · exact .pure (hv.mono (by omega))

/-! ### Operands -/

/-- An operand is deepest when it is a call that gives a result to an element of an array. -/
theorem primary_shallow : EnsuresShallow l (k + 3) (primary e) := by
  refine .skip fun t => ?_
  split
  · exact literal_shallow t _
  · exact timeLiteral_shallow t _
  · refine .ite ?_ (.skip fun second => .skip fun third => .ite typedLiteral_shallow ?_)
    · refine .skip fun _ => he.bind fun x hx => .skip fun _ => .node fun span => ?_
      exact .of_children rfl (List.forall_mem_singleton.2 (hx.mono (by omega)))
    · exact .ite (variableOrCall_shallow he) (.failInvalid _)

end Parts

theorem unaryBody_shallow (hu : EnsuresShallow l (m - 6) u) (hp : EnsuresShallow l (m - 7) p) :
    EnsuresShallow l (m + 3) (unaryBody u p) := by
  have signed {s : Span} {op : UnaryOp} {x : Expr} {j : Nat} (h : Shallow (m - j) (.expr x)) :
      Shallow (m + 3) (.expr (.unary s op x)) :=
    .of_children rfl (List.forall_mem_singleton.2 (h.mono (by omega)))
  refine .skip fun t => ?_
  split
  · refine .skip fun _ => (binaryFrom_shallow hu hp ?_ ?_).bind fun x hx => .node fun _ => signed hx
    · decide
    · decide
  · exact .skip fun _ => hu.bind fun x hx => .node fun _ => signed hx
  · exact .skip fun _ => hu.bind fun x hx => .pure ((hx.mono (by omega)).withSpan _)
  · exact primary_shallow (binaryFrom_shallow hu hp (Nat.le_refl 1) (by decide))

mutual

theorem unary_shallow : ∀ levels, EnsuresShallow l (9 * levels - 6) (unary levels)
  | 0 => .tooDeep
  | levels + 1 => .nested (unaryBody_shallow (unary_shallow levels) (powerOperand_shallow levels))

theorem powerOperand_shallow : ∀ levels, EnsuresShallow l (9 * levels - 7) (powerOperand levels)
  | 0 => .tooDeep
  | levels + 1 => by
    have operands : EnsuresShallow l (9 * levels - 6) (binaryFrom (unary levels)
        (powerOperand levels) 7) :=
      binaryFrom_shallow (unary_shallow levels) (powerOperand_shallow levels) (by decide)
        (Nat.le_refl 7)
    exact .nested (operands.imp fun _ h => h.mono (by omega))

end

/-- Nine levels for every construct that may be opened. -/
theorem expression_shallow (levels : Nat) : EnsuresShallow l (9 * levels) (expression levels) :=
  binaryFrom_shallow (unary_shallow levels) (powerOperand_shallow levels) (Nat.le_refl 1)
    (by decide)

/-! ### Lists of statements -/

/-- No statement that the rule gives has more levels. -/
abbrev EnsuresShallowStmt (l : Limits) (k : Nat) (st : Rule Stmt) : Prop :=
  Ensures l st fun t => Shallow k (.stmt t)

/-- No statement in a list has more levels. -/
abbrev AllShallow (k : Nat) (ts : List Stmt) : Prop :=
  ∀ t ∈ ts, Shallow k (.stmt t)

theorem statementListUntil_shallow {stop : Rule Bool} (hs : EnsuresShallowStmt l k st) :
    Ensures l (statementListUntil stop st) (AllShallow k) := by
  refine .skip fun n => (Ensures.many (P := fun t => Shallow k (.stmt t)) (fun size room => ?_) n
    (Nat.zero_le _)).imp fun _ h => h.1
  refine (Ensures.recovering hs).bind fun o ho => ?_
  split
  · next t =>
    refine (Ensures.checkSize _ _).bind fun _ within => .pure ⟨?_, within⟩
    exact List.forall_mem_singleton.2 (ho t rfl)
  · exact .pure ⟨nofun, room⟩

theorem many_shallow {more : Rule Bool} {item : Nat → Rule (List Stmt)}
    (h : ∀ size, Ensures l (item size) (AllShallow k)) (n size : Nat) :
    Ensures l (many more item n size) (AllShallow k) := by
  have none : AllShallow k [] := fun _ hs => absurd hs List.not_mem_nil
  induction n generalizing size with
  | zero =>
    unfold many
    exact .skip fun b => .ite .tooManyPasses (.pure none)
  | succ n ih =>
    unfold many
    refine .skip fun b => .ite ?_ (.pure none)
    refine (h size).bind fun xs hxs => (ih _).bind fun ys hys => .pure ?_
    exact List.forall_mem_append.2 ⟨hxs, hys⟩

theorem bodyWith_shallow (hs : EnsuresShallowStmt l k st) (ends : List Keyword) :
    Ensures l (bodyWith st ends) (AllShallow k) := by
  refine (statementListUntil_shallow hs).bind fun first hfirst => .skip fun n => ?_
  have later (size : Nat) : Ensures l (afterStray st ends size) (AllShallow k) := by
    refine .skip fun e => .skip fun _ => .skip fun _ => .skip fun _ => ?_
    exact (statementListUntil_shallow hs).bind fun ts hts => .skip fun _ => .pure hts
  refine (many_shallow later n _).bind fun others h => .pure ?_
  exact List.forall_mem_append.2 ⟨hfirst, h⟩

/-! ### Simple statements -/

section Simple

variable (he : EnsuresShallow l k e)
include he

theorem leaveStmt_shallow : EnsuresShallowStmt l (k + 4) (leaveStmt e) := by
  refine .skip fun t => .skip fun next => ?_
  have rest (value : Option Expr) (h : ∀ x ∈ value.toList, Shallow (k + 3) (.expr x)) :
      EnsuresShallowStmt l (k + 4) (do
        expectSemicolon
        node t.span fun s => Stmt.leave s value) :=
    .skip fun _ => .node fun span => .of_children rfl (List.forall_mem_map.2 h)
  refine .ite (Ensures.bind (.pure nofun) rest) (Ensures.bind (he.map fun x hx => ?_) rest)
  exact List.forall_mem_singleton.2 (hx.mono (by omega))

theorem assignmentOrCall_shallow : EnsuresShallowStmt l (k + 4) (assignmentOrCall e) := by
  refine .skip fun start => (variableWith_shallow he).bind fun target htarget => ?_
  have target' : Shallow (k + 3) (.expr (.variable target)) := htarget.mono (by omega)
  refine .skip fun b => .ite ?_ (.skip fun next => ?_)
  · split
    · exact .skip fun _ => .throw _
    · refine (callArgs_shallow he).bind fun args h => .skip fun declared => .ite ?_ ?_
      · refine .skip fun _ => .node fun span => .of_children rfl ?_
        refine List.forall_mem_cons.2 ⟨target', List.forall_mem_map.2 fun a ha => ?_⟩
        exact (h a ha).mono (by omega)
      · refine .skip fun callSpan => .skip fun _ => .node fun span => .of_children rfl ?_
        exact List.forall_mem_singleton.2 (.of_children rfl (List.forall_mem_map.2 h))
  · split
    · exact .failExpecting _
    · refine .skip fun _ => he.bind fun value hvalue => .skip fun _ => .node fun span => ?_
      refine .of_children rfl (List.forall_mem_cons.2 ⟨target', ?_⟩)
      exact List.forall_mem_singleton.2 (hvalue.mono (by omega))

theorem plainStmt_shallow : EnsuresShallowStmt l (k + 4) (plainStmt e) := by
  refine .skip fun t => .ite ?_ (.skip fun d => .skip fun next => .ite ?_ ?_)
  · exact .skip fun _ => .node fun span => .leaf rfl
  · exact .skip fun _ => .skip fun _ => .node fun span => .leaf rfl
  · exact .ite (assignmentOrCall_shallow he) (.failInvalid _)

end Simple

theorem oneWord_shallow {build : Span → Stmt} (h : ∀ span, Shallow k (.stmt (build span))) :
    EnsuresShallowStmt l k (oneWord build) :=
  .skip fun _ => .skip fun _ => .node h

theorem gotoStmt_shallow : EnsuresShallowStmt l (k + 1) gotoStmt :=
  .skip fun _ => .skip fun _ => .skip fun _ => .node fun _ => .leaf rfl

/-! ### Constructs -/

section Constructs

variable (he : EnsuresShallow l k e) (hs : EnsuresShallowStmt l (k + 2) st)

include hs

/-- The statements after `ELSE` are parts of the statement itself. -/
theorem elseBody_shallow : Ensures l (elseBody st) fun o => AllShallow (k + 3) (o.getD []) := by
  refine .skip fun b => .ite ?_ (.pure nofun)
  exact (statementListUntil_shallow hs).map fun _ h t ht => (h t ht).mono (Nat.le_succ _)

theorem regionStmt_shallow : EnsuresShallowStmt l (k + 4) (regionStmt st) := by
  refine .skip fun t => .skip fun (title, lineEnd) => .skip fun _ => ?_
  refine (statementListUntil_shallow hs).bind fun body h => .skip fun _ => .node fun span => ?_
  exact .of_children rfl (List.forall_mem_map.2 fun t ht => (h t ht).mono (Nat.le_succ _))

include he

theorem ifBranch_shallow (opener : Token) :
    Ensures l (ifBranch e st opener) fun b => Shallow (k + 3) (.ifBranch b) := by
  refine he.bind fun x hx => .skip fun _ => ?_
  refine (statementListUntil_shallow hs).bind fun body h => .node fun span => .of_children rfl ?_
  exact List.forall_mem_cons.2 ⟨hx.mono (by omega), List.forall_mem_map.2 h⟩

theorem ifStmt_shallow : EnsuresShallowStmt l (k + 4) (ifStmt e st) := by
  refine .skip fun t => (ifBranch_shallow he hs t).bind fun first hfirst => .skip fun n => ?_
  have item (size : Nat) : Ensures l (do
      let opener ← advance
      let branch ← ifBranch e st opener
      checkSize (size + 1) branch.span
      return [branch]) (Ensures.Items l (fun b => Shallow (k + 3) (.ifBranch b)) size) := by
    refine .skip fun opener => (ifBranch_shallow he hs opener).bind fun b hb => ?_
    refine (Ensures.checkSize _ _).bind fun _ within => .pure ⟨?_, within⟩
    exact List.forall_mem_singleton.2 hb
  refine (Ensures.many (fun size _ => item size) n (Nat.zero_le _)).bind fun elsifs h => ?_
  refine (elseBody_shallow hs).bind fun otherwise ho => .skip fun _ => .node fun span => ?_
  refine .of_children rfl (List.forall_mem_append.2 ⟨?_, List.forall_mem_map.2 ho⟩)
  exact List.forall_mem_cons.2 ⟨hfirst, List.forall_mem_map.2 h.1⟩

omit hs in
theorem caseSelector_shallow :
    Ensures l (caseSelector e) fun x => Shallow (k + 1) (.selector x) := by
  refine .skip fun start => he.bind fun low hlow => .skip fun b => .ite ?_ ?_
  · refine he.bind fun high hhigh => .node fun span => .of_children rfl ?_
    exact List.forall_mem_cons.2 ⟨hlow, List.forall_mem_singleton.2 hhigh⟩
  · exact .node fun span => .of_children rfl (List.forall_mem_singleton.2 hlow)

theorem caseBranch_shallow :
    Ensures l (caseBranch e st) fun b => Shallow (k + 3) (.caseBranch b) := by
  refine .skip fun start => ?_
  refine (Ensures.commaList_all (caseSelector_shallow he)).bind fun selectors hsel => ?_
  refine .skip fun _ => (statementListUntil_shallow hs).bind fun body h => .node fun span => ?_
  refine .of_children rfl (List.forall_mem_append.2 ⟨?_, List.forall_mem_map.2 h⟩)
  exact List.forall_mem_map.2 fun x hx => (hsel x hx).mono (Nat.le_succ _)

/-- A label of a branch of a `CASE` statement is three levels below the statement. -/
theorem caseStmt_shallow : EnsuresShallowStmt l (k + 4) (caseStmt e st) := by
  refine .skip fun t => he.bind fun selector hsel => .skip fun _ => .skip fun n => ?_
  have item (size : Nat) : Ensures l (do
      let branch ← caseBranch e st
      checkSize (size + 1) branch.span
      return [branch]) (Ensures.Items l (fun b => Shallow (k + 3) (.caseBranch b)) size) := by
    refine (caseBranch_shallow he hs).bind fun b hb => ?_
    refine (Ensures.checkSize _ _).bind fun _ within => .pure ⟨?_, within⟩
    exact List.forall_mem_singleton.2 hb
  refine (Ensures.many (fun size _ => item size) n (Nat.zero_le _)).bind fun branches h => ?_
  refine (elseBody_shallow hs).bind fun otherwise ho => .skip fun _ => .node fun span => ?_
  refine .of_children rfl (List.forall_mem_append.2 ⟨?_, List.forall_mem_map.2 ho⟩)
  exact List.forall_mem_cons.2 ⟨hsel.mono (by omega), List.forall_mem_map.2 h.1⟩

theorem forStmt_shallow : EnsuresShallowStmt l (k + 4) (forStmt e st) := by
  refine .skip fun t => .skip fun d => ?_
  have he' : EnsuresShallow l (k + 3) e := he.imp fun _ h => h.mono (by omega)
  have rest (control : Token) (start stop : Expr) (hstart : Shallow (k + 3) (.expr start))
      (hstop : Shallow (k + 3) (.expr stop)) (step : Option Expr)
      (hstep : ∀ x ∈ step.toList, Shallow (k + 3) (.expr x)) : EnsuresShallowStmt l (k + 4) (do
        let _ ← expect Keyword.DO
        let body ← statementList st
        endConstruct .END_FOR t.span
        node t.span fun s => Stmt.forLoop s control.nameText start stop step body) := by
    refine .skip fun _ => (statementListUntil_shallow hs).bind fun body h => .skip fun _ => ?_
    refine .node fun span => .of_children rfl (List.forall_mem_append.2 ⟨?_, ?_⟩)
    · exact List.forall_mem_cons.2 ⟨hstart, List.forall_mem_cons.2 ⟨hstop, List.forall_mem_map.2 hstep⟩⟩
    · exact List.forall_mem_map.2 fun t ht => (h t ht).mono (Nat.le_succ _)
  have loop : EnsuresShallowStmt l (k + 4) (do
      let control ← expectAnyName "loop variable"
      let _ ← expect Mark.assign
      let start ← e
      let _ ← expect Keyword.TO
      let stop ← e
      let step ← if ← accept Keyword.BY then some <$> e else pure none
      let _ ← expect Keyword.DO
      let body ← statementList st
      endConstruct .END_FOR t.span
      node t.span fun s => Stmt.forLoop s control.nameText start stop step body) := by
    refine .skip fun control => .skip fun _ => he'.bind fun start hstart => .skip fun _ => ?_
    refine he'.bind fun stop hstop => .skip fun b => ?_
    have width : Ensures l e fun x => ∀ y ∈ (some x).toList, Shallow (k + 3) (.expr y) :=
      he'.imp fun x hx y hy => List.mem_singleton.1 hy ▸ hx
    exact .optional width nofun (rest control start stop hstart hstop)
  exact .ite (.skip fun _ => loop) loop

theorem whileStmt_shallow : EnsuresShallowStmt l (k + 4) (whileStmt e st) := by
  refine .skip fun t => he.bind fun x hx => .skip fun _ => ?_
  refine (statementListUntil_shallow hs).bind fun body h => .skip fun _ => .node fun span => ?_
  refine .of_children rfl (List.forall_mem_cons.2 ⟨hx.mono (by omega), ?_⟩)
  exact List.forall_mem_map.2 fun t ht => (h t ht).mono (Nat.le_succ _)

theorem repeatStmt_shallow : EnsuresShallowStmt l (k + 4) (repeatStmt e st) := by
  refine .skip fun t => (statementListUntil_shallow hs).bind fun body h => .skip fun _ => ?_
  refine he.bind fun x hx => .skip fun _ => .skip fun _ => .node fun span => .of_children rfl ?_
  refine List.forall_mem_append.2 ⟨?_, List.forall_mem_singleton.2 (hx.mono (by omega))⟩
  exact List.forall_mem_map.2 fun t ht => (h t ht).mono (Nat.le_succ _)

/-! ### One statement -/

theorem statementBody_shallow : EnsuresShallowStmt l (k + 4) (statementBody e st) := by
  refine .skip fun next => ?_
  split
  · exact ifStmt_shallow he hs
  · exact caseStmt_shallow he hs
  · exact forStmt_shallow he hs
  · exact whileStmt_shallow he hs
  · exact repeatStmt_shallow he hs
  · exact oneWord_shallow fun _ => .leaf rfl
  · exact oneWord_shallow fun _ => .leaf rfl
  · exact leaveStmt_shallow he
  · exact gotoStmt_shallow
  · exact regionStmt_shallow hs
  · exact plainStmt_shallow he

end Constructs

/-- A statement has four levels more than the expressions in it, which open a construct less. -/
theorem statement_shallow : ∀ levels, EnsuresShallowStmt l (9 * levels - 5) (statement levels)
  | 0 => .tooDeep
  | levels + 1 => by
    have inner : EnsuresShallowStmt l (9 * levels + 2) (statement levels) :=
      (statement_shallow levels).imp fun _ h => h.mono (by omega)
    exact .nested (statementBody_shallow (expression_shallow levels) inner)

theorem allStatements_shallow (levels : Nat) (declared : List String) :
    Ensures l (allStatements levels declared) (AllShallow (9 * levels - 5)) := by
  refine Ensures.bind (.declaring declared (bodyWith_shallow (statement_shallow levels) [])) ?_
  exact fun ts h => .skip fun _ => .pure h

end Grammar

namespace Reading

open Grammar

/-! ### Whole texts -/

/-- On no way down from the node are there more levels, or more nodes, than the limits allow. -/
def Bounded (r : Reading) (n : Node) : Prop :=
  ∀ ns k, n.Way ns k → k ≤ 9 * r.limits.maxDepth ∧ ns.length ≤ r.limits.maxNodes

variable {r : Reading} {recovers : Bool} {errors : List SyntaxError}

theorem run_bounded_expression {e : Expr} (h : run (whole Grammar.expression r.limits.maxDepth)
    r.source r.limits r.dialect recovers = .ok (e, errors)) : r.Bounded (.expr e) := by
  obtain ⟨ts, c, -, hrun, -⟩ := run_eq_ok_iff.1 h
  have counts : Counts (whole Grammar.expression r.limits.maxDepth) Expr.nodes :=
    Builds.bind (expression_builds _) fun e =>
      Builds.bind (.of_countsUp countsUp.expectEnd_rel) fun _ => .same rfl
  have pays : Affords (whole Grammar.expression r.limits.maxDepth) :=
    Affords.bind (affords.expression_rel (.refl _)) fun e =>
      Affords.bind affords.expectEnd_rel fun _ => affords.pure e
  have gives : EnsuresShallow r.limits (9 * r.limits.maxDepth)
      (whole Grammar.expression r.limits.maxDepth) :=
    Ensures.bind (expression_shallow _) fun e he => .skip fun _ => .pure he
  have few : e.nodes.length ≤ r.limits.maxNodes := length_le counts pays hrun
  exact fun ns k way => ⟨gives rfl hrun ns k way, way.length_le.trans few⟩

theorem run_bounded_statements {declared : List String} {ss : List Stmt}
    (h : run (allStatements r.limits.maxDepth declared) r.source r.limits r.dialect recovers =
      .ok (ss, errors)) : ∀ s ∈ ss, r.Bounded (.stmt s) := by
  obtain ⟨ts, c, -, hrun, -⟩ := run_eq_ok_iff.1 h
  have shallow := allStatements_shallow (l := r.limits) r.limits.maxDepth declared rfl hrun
  have few : (Stmt.nodesAll ss).length ≤ r.limits.maxNodes :=
    length_le (allStatements_counts _ declared) (affords.allStatements_rel (.refl _) declared) hrun
  intro s hs ns k way
  obtain ⟨before, after, rfl⟩ := List.append_of_mem hs
  have inside := way.length_le
  rw [← Stmt.flatMap_nodes, List.flatMap_append, List.flatMap_cons, List.length_append,
    List.length_append] at few
  have levels := shallow s hs ns k way
  refine ⟨by omega, ?_⟩
  change ns.length ≤ s.nodes.length at inside
  omega

/-- How high the trees of a text are.  On a way from an expression or a statement to a leaf there are
at most nine levels for every construct that may be opened, where a chain of operators or accesses
that a loop reads is one level; the chain itself is bounded by the number of nodes that are allowed.
This is so in every dialect, with any names declared, and whether errors end the reading or are
recovered from. -/
theorem levels_le (r : Reading) (declared : List String) :
    (∀ e, r.expression = .ok e → r.Bounded (.expr e)) ∧
      (∀ ss, r.statements declared = .ok ss → ∀ s ∈ ss, r.Bounded (.stmt s)) ∧
      ∀ ss errors, r.statementsRecovering declared = .ok (ss, errors) →
        ∀ s ∈ ss, r.Bounded (.stmt s) := by
  refine ⟨fun e h => ?_, fun ss h => ?_, fun ss errors h => run_bounded_statements h⟩
  · obtain ⟨errors, hrun⟩ := strictly_eq_ok_iff.1 h
    exact run_bounded_expression hrun
  · obtain ⟨errors, hrun⟩ := strictly_eq_ok_iff.1 h
    exact run_bounded_statements hrun

/-- Operators that bind tighter and tighter, and a call whose argument is a variable. -/
def deepExpression : Reading where
  source := "a OR b XOR c AND d = e + g * f(x => y)".toList
  limits := { maxDepth := 1 }

/-- All nine levels can be used. -/
theorem levels_le_deepExpression : ∃ e, deepExpression.expression = .ok e ∧
    (∃ ns, (Node.expr e).Way ns 9) ∧ deepExpression.Bounded (.expr e) := by
  have nine : deepExpression.expression.toOption.map
      (fun e => ((Node.expr e).ways 9).any (·.2 == 9)) = some true := by decide +kernel
  obtain ⟨e, h, nine⟩ := ok_of_map nine
  obtain ⟨⟨ns, k⟩, found, same⟩ := List.any_eq_true.1 nine
  obtain rfl : k = 9 := eq_of_beq same
  exact ⟨e, h, ⟨ns, (Node.mem_ways_iff.1 found).1⟩, (levels_le deepExpression []).1 e h⟩

/-- A sum of thirteen numbers. -/
def longSum : Reading where
  source := "1+1+1+1+1+1+1+1+1+1+1+1+1".toList
  limits := { maxDepth := 1 }

/-- The bound on the depth does not bound the height: a sum is as high as it is long. -/
theorem height_not_le :
    ¬ ∀ (r : Reading) (e : Expr), r.expression = .ok e → ∀ ns : List Node,
      ns.head? = some (.expr e) → (ns.IsChain fun n m => m ∈ n.children) →
        ns.length ≤ 12 * r.limits.maxDepth := by
  intro bounds
  have thirteen : longSum.expression.toOption.map
      (fun e => ((Node.expr e).ways 13).any (·.1.length == 13)) = some true := by decide +kernel
  obtain ⟨e, h, thirteen⟩ := ok_of_map thirteen
  obtain ⟨⟨ns, k⟩, found, long⟩ := List.any_eq_true.1 thirteen
  have way := (Node.mem_ways_iff.1 found).1
  have few : ns.length ≤ 12 := bounds longSum e h ns way.head? way.isChain
  have same : ns.length = 13 := eq_of_beq long
  omega

end Reading

end Plc

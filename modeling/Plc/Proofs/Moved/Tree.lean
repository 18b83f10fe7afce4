/-
Trees at another place.

The same text further on in a longer text gives the same tree, all of whose places are further on.

* `Span.moved`, `Token.moved` — a place, and a token, so many characters further on;
* `Expr.moved`, `Stmt.moved` — the tree with each of its places moved;
* `Expr.span_moved`, `Variable.path?_moved` — what a rule reads off a tree moves along with it, or
  does not change.
-/
import Plc.Tree.Stmt

namespace Plc

/-- The place so many characters further on. -/
def Span.moved (k : Nat) (s : Span) : Span :=
  ⟨s.start + k, s.stop + k, Nat.add_le_add_right s.ordered k⟩

/-- The token so many characters further on. -/
def Token.moved (k : Nat) (t : Token) : Token :=
  { t with span := t.span.moved k }

mutual

/-- The variable with its places moved. -/
def Variable.moved (k : Nat) : Variable → Variable
  | .named s n style => .named (s.moved k) n style
  | .address s t a => .address (s.moved k) t a
  | .member s b m => .member (s.moved k) (b.moved k) m
  | .element s b is => .element (s.moved k) (b.moved k) (Expr.movedAll k is)
  | .deref s b => .deref (s.moved k) (b.moved k)

/-- The expression with its places moved. -/
def Expr.moved (k : Nat) : Expr → Expr
  | .literal s l => .literal (s.moved k) l
  | .variable v => .variable (v.moved k)
  | .unary s op x => .unary (s.moved k) op (x.moved k)
  | .binary s op l r => .binary (s.moved k) op (l.moved k) (r.moved k)
  | .paren s x => .paren (s.moved k) (x.moved k)
  | .call s name args => .call (s.moved k) name (Arg.movedAll k args)
  | .repeated s n (some x) => .repeated (s.moved k) n (some (x.moved k))
  | .repeated s n none => .repeated (s.moved k) n none
  | .arrayInit s es => .arrayInit (s.moved k) (Expr.movedAll k es)
  | .structInit s fs => .structInit (s.moved k) (Arg.movedAll k fs)

/-- The argument with its places moved. -/
def Arg.moved (k : Nat) : Arg → Arg
  | .positional s x => .positional (s.moved k) (x.moved k)
  | .named s n x => .named (s.moved k) n (x.moved k)
  | .output s n v negated => .output (s.moved k) n (v.moved k) negated
  | .inferred s => .inferred (s.moved k)

/-- Each expression of a list. -/
def Expr.movedAll (k : Nat) : List Expr → List Expr
  | [] => []
  | x :: xs => x.moved k :: Expr.movedAll k xs

/-- Each argument of a list. -/
def Arg.movedAll (k : Nat) : List Arg → List Arg
  | [] => []
  | x :: xs => x.moved k :: Arg.movedAll k xs

end

/-- The label with its places moved. -/
def CaseSelector.moved (k : Nat) : CaseSelector → CaseSelector
  | .value s x => .value (s.moved k) (x.moved k)
  | .range s low high => .range (s.moved k) (low.moved k) (high.moved k)

mutual

/-- The statement with its places moved. -/
def Stmt.moved (k : Nat) : Stmt → Stmt
  | .assignment s target op value => .assignment (s.moved k) (target.moved k) op (value.moved k)
  | .ifThen s first elsifs none =>
    .ifThen (s.moved k) (first.moved k) (IfBranch.movedAll k elsifs) none
  | .ifThen s first elsifs (some ss) =>
    .ifThen (s.moved k) (first.moved k) (IfBranch.movedAll k elsifs) (some (Stmt.movedAll k ss))
  | .caseOf s selector branches none =>
    .caseOf (s.moved k) (selector.moved k) (CaseBranch.movedAll k branches) none
  | .caseOf s selector branches (some ss) =>
    .caseOf (s.moved k) (selector.moved k) (CaseBranch.movedAll k branches)
      (some (Stmt.movedAll k ss))
  | .forLoop s control start stop step body =>
    .forLoop (s.moved k) control (start.moved k) (stop.moved k) (step.map (Expr.moved k))
      (Stmt.movedAll k body)
  | .whileLoop s condition body =>
    .whileLoop (s.moved k) (condition.moved k) (Stmt.movedAll k body)
  | .repeatLoop s body condition =>
    .repeatLoop (s.moved k) (Stmt.movedAll k body) (condition.moved k)
  | .exitLoop s => .exitLoop (s.moved k)
  | .nextPass s => .nextPass (s.moved k)
  | .leave s value => .leave (s.moved k) (value.map (Expr.moved k))
  | .call s callSpan name args =>
    .call (s.moved k) (callSpan.moved k) name (Arg.movedAll k args)
  | .invoke s callee args => .invoke (s.moved k) (callee.moved k) (Arg.movedAll k args)
  | .empty s => .empty (s.moved k)
  | .goto s label => .goto (s.moved k) label
  | .label s name => .label (s.moved k) name
  | .region s title body => .region (s.moved k) title (Stmt.movedAll k body)

/-- The branch with its places moved. -/
def IfBranch.moved (k : Nat) : IfBranch → IfBranch
  | .mk s condition body => .mk (s.moved k) (condition.moved k) (Stmt.movedAll k body)

/-- The branch with its places moved. -/
def CaseBranch.moved (k : Nat) : CaseBranch → CaseBranch
  | .mk s selectors body =>
    .mk (s.moved k) (selectors.map (CaseSelector.moved k)) (Stmt.movedAll k body)

/-- Each statement of a list. -/
def Stmt.movedAll (k : Nat) : List Stmt → List Stmt
  | [] => []
  | s :: ss => s.moved k :: Stmt.movedAll k ss

/-- Each branch of a list. -/
def IfBranch.movedAll (k : Nat) : List IfBranch → List IfBranch
  | [] => []
  | b :: bs => b.moved k :: IfBranch.movedAll k bs

/-- Each branch of a list. -/
def CaseBranch.movedAll (k : Nat) : List CaseBranch → List CaseBranch
  | [] => []
  | b :: bs => b.moved k :: CaseBranch.movedAll k bs

end

variable (k : Nat)

/-! ### Lists -/

theorem Expr.movedAll_eq (es : List Expr) : Expr.movedAll k es = es.map (Expr.moved k) := by
  induction es with
  | nil => rfl
  | cons e es ih => rw [movedAll, ih, List.map_cons]

theorem Arg.movedAll_eq (as : List Arg) : Arg.movedAll k as = as.map (Arg.moved k) := by
  induction as with
  | nil => rfl
  | cons a as ih => rw [movedAll, ih, List.map_cons]

theorem Stmt.movedAll_eq (ss : List Stmt) : Stmt.movedAll k ss = ss.map (Stmt.moved k) := by
  induction ss with
  | nil => rfl
  | cons s ss ih => rw [movedAll, ih, List.map_cons]

theorem IfBranch.movedAll_eq (bs : List IfBranch) :
    IfBranch.movedAll k bs = bs.map (IfBranch.moved k) := by
  induction bs with
  | nil => rfl
  | cons b bs ih => rw [movedAll, ih, List.map_cons]

theorem CaseBranch.movedAll_eq (bs : List CaseBranch) :
    CaseBranch.movedAll k bs = bs.map (CaseBranch.moved k) := by
  induction bs with
  | nil => rfl
  | cons b bs ih => rw [movedAll, ih, List.map_cons]

theorem Stmt.moved_ifThen (s : Span) (first : IfBranch) (elsifs : List IfBranch)
    (otherwise : Option (List Stmt)) : (Stmt.ifThen s first elsifs otherwise).moved k =
      .ifThen (s.moved k) (first.moved k) (elsifs.map (IfBranch.moved k))
        (otherwise.map (List.map (Stmt.moved k))) := by
  cases otherwise <;> simp [moved, IfBranch.movedAll_eq, Stmt.movedAll_eq]

theorem Stmt.moved_caseOf (s : Span) (selector : Expr) (branches : List CaseBranch)
    (otherwise : Option (List Stmt)) : (Stmt.caseOf s selector branches otherwise).moved k =
      .caseOf (s.moved k) (selector.moved k) (branches.map (CaseBranch.moved k))
        (otherwise.map (List.map (Stmt.moved k))) := by
  cases otherwise <;> simp [moved, CaseBranch.movedAll_eq, Stmt.movedAll_eq]

/-! ### Places -/

theorem Span.merge_moved (a b : Span) : (a.moved k).merge (b.moved k) = (a.merge b).moved k := by
  simp only [merge, moved, Nat.add_min_add_right, Nat.add_max_add_right]

theorem Variable.span_moved (v : Variable) : (v.moved k).span = v.span.moved k := by
  cases v <;> rfl

theorem Expr.span_moved (e : Expr) : (e.moved k).span = e.span.moved k := by
  cases e with
  | «variable» v => exact v.span_moved k
  | repeated _ _ x => cases x <;> rfl
  | _ => rfl

theorem Variable.moved_withSpan (s : Span) (v : Variable) :
    (v.withSpan s).moved k = (v.moved k).withSpan (s.moved k) := by
  cases v <;> rfl

theorem Expr.moved_withSpan (s : Span) (e : Expr) :
    (e.withSpan s).moved k = (e.moved k).withSpan (s.moved k) := by
  cases e with
  | «variable» v => exact congrArg Expr.variable (v.moved_withSpan k s)
  | repeated _ _ x => cases x <;> rfl
  | _ => rfl

/-! ### Names -/

theorem Variable.path?_moved (v : Variable) : (v.moved k).path? = v.path? := by
  cases v with
  | member _ b _ => rw [moved, path?, path?, path?_moved b]
  | _ => rfl

theorem Variable.root?_moved (v : Variable) : (v.moved k).root? = v.root? := by
  cases v with
  | member _ b _ | element _ b _ | deref _ b => exact root?_moved b
  | _ => rfl

/-! ### Moved by nothing -/

theorem Span.moved_zero (s : Span) : s.moved 0 = s := rfl

mutual

theorem Variable.moved_zero (v : Variable) : v.moved 0 = v := by
  cases v with
  | named | address => rfl
  | member s b m => rw [Variable.moved, b.moved_zero]; rfl
  | element s b is => rw [Variable.moved, b.moved_zero, Expr.movedAll_zero]; rfl
  | deref s b => exact congrArg (Variable.deref s) b.moved_zero

theorem Expr.moved_zero : ∀ e : Expr, e.moved 0 = e
  | .literal _ _ => rfl
  | .variable v => congrArg Expr.variable v.moved_zero
  | .unary s op x => congrArg (Expr.unary s op) x.moved_zero
  | .binary s op l r => by rw [Expr.moved, l.moved_zero, r.moved_zero]; rfl
  | .paren s x => congrArg (Expr.paren s) x.moved_zero
  | .call s name args => congrArg (Expr.call s name) (Arg.movedAll_zero args)
  | .repeated s n (some x) => congrArg (fun x => Expr.repeated s n (some x)) x.moved_zero
  | .repeated _ _ none => rfl
  | .arrayInit s es => congrArg (Expr.arrayInit s) (Expr.movedAll_zero es)
  | .structInit s fs => congrArg (Expr.structInit s) (Arg.movedAll_zero fs)

theorem Arg.moved_zero : ∀ a : Arg, a.moved 0 = a
  | .positional s x => congrArg (Arg.positional s) x.moved_zero
  | .named s n x => congrArg (Arg.named s n) x.moved_zero
  | .output s n v negated => congrArg (fun v => Arg.output s n v negated) v.moved_zero
  | .inferred _ => rfl

theorem Expr.movedAll_zero : ∀ es : List Expr, Expr.movedAll 0 es = es
  | [] => rfl
  | e :: es => by rw [Expr.movedAll, e.moved_zero, Expr.movedAll_zero]

theorem Arg.movedAll_zero : ∀ as : List Arg, Arg.movedAll 0 as = as
  | [] => rfl
  | a :: as => by rw [Arg.movedAll, a.moved_zero, Arg.movedAll_zero]

end

theorem CaseSelector.moved_zero : ∀ c : CaseSelector, c.moved 0 = c
  | .value s x => congrArg (CaseSelector.value s) x.moved_zero
  | .range s low high => by
    rw [CaseSelector.moved, low.moved_zero, high.moved_zero]; rfl

/-- An expression that may be missing. -/
theorem Expr.map_moved_zero (o : Option Expr) : o.map (Expr.moved 0) = o := by
  cases o with
  | none => rfl
  | some e => exact congrArg some e.moved_zero

mutual

theorem Stmt.moved_zero : ∀ s : Stmt, s.moved 0 = s
  | .assignment s target op value => by rw [Stmt.moved, target.moved_zero, value.moved_zero]; rfl
  | .ifThen s first elsifs none => by
    rw [Stmt.moved, first.moved_zero, IfBranch.movedAll_zero]; rfl
  | .ifThen s first elsifs (some ss) => by
    rw [Stmt.moved, first.moved_zero, IfBranch.movedAll_zero, Stmt.movedAll_zero]; rfl
  | .caseOf s selector branches none => by
    rw [Stmt.moved, selector.moved_zero, CaseBranch.movedAll_zero]; rfl
  | .caseOf s selector branches (some ss) => by
    rw [Stmt.moved, selector.moved_zero, CaseBranch.movedAll_zero, Stmt.movedAll_zero]; rfl
  | .forLoop s control start stop step body => by
    rw [Stmt.moved, start.moved_zero, stop.moved_zero, Expr.map_moved_zero, Stmt.movedAll_zero]; rfl
  | .whileLoop s condition body => by
    rw [Stmt.moved, condition.moved_zero, Stmt.movedAll_zero]; rfl
  | .repeatLoop s body condition => by
    rw [Stmt.moved, condition.moved_zero, Stmt.movedAll_zero]; rfl
  | .exitLoop _ => rfl
  | .nextPass _ => rfl
  | .leave s value => by rw [Stmt.moved, Expr.map_moved_zero]; rfl
  | .call s callSpan name args => by rw [Stmt.moved, Arg.movedAll_zero]; rfl
  | .invoke s callee args => by rw [Stmt.moved, callee.moved_zero, Arg.movedAll_zero]; rfl
  | .empty _ => rfl
  | .goto _ _ => rfl
  | .label _ _ => rfl
  | .region s title body => by rw [Stmt.moved, Stmt.movedAll_zero]; rfl

theorem IfBranch.moved_zero : ∀ b : IfBranch, b.moved 0 = b
  | .mk s condition body => by
    rw [IfBranch.moved, condition.moved_zero, Stmt.movedAll_zero]; rfl

theorem CaseBranch.moved_zero : ∀ b : CaseBranch, b.moved 0 = b
  | .mk s selectors body => by
    rw [CaseBranch.moved, funext CaseSelector.moved_zero, List.map_id', Stmt.movedAll_zero]; rfl

theorem Stmt.movedAll_zero : ∀ ss : List Stmt, Stmt.movedAll 0 ss = ss
  | [] => rfl
  | s :: ss => by rw [Stmt.movedAll, s.moved_zero, Stmt.movedAll_zero]

theorem IfBranch.movedAll_zero : ∀ bs : List IfBranch, IfBranch.movedAll 0 bs = bs
  | [] => rfl
  | b :: bs => by rw [IfBranch.movedAll, b.moved_zero, IfBranch.movedAll_zero]

theorem CaseBranch.movedAll_zero : ∀ bs : List CaseBranch, CaseBranch.movedAll 0 bs = bs
  | [] => rfl
  | b :: bs => by rw [CaseBranch.movedAll, b.moved_zero, CaseBranch.movedAll_zero]

end

end Plc

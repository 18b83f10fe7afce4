/-
Trees that a printer may be given.

A tree is well formed when its names are names of the generic language, its literals
and addresses are what their own texts stand for, and nothing in it is without a text of
its own.  Two trees are the same to a reader when they differ in places and parentheses only.

* `Expr.bare`, `Stmt.bare` — a tree without its places and its parentheses;
* `Expr.WellFormed`, `Stmt.WellFormed` — the trees that a printer may be given;
* `Stmt.IsLabelled` — every branch of a `CASE` statement has a label.
-/
import Plc.Printer
import Plc.Proofs.RoundTrip.Word
import Plc.Reading

namespace Plc

open Lexed

/-! ### Places and parentheses left out -/

mutual

/-- The variable without its places and parentheses. -/
def Variable.bare : Variable → Variable
  | .named _ n style => .named .zero n style
  | .address _ t a => .address .zero t a
  | .member _ b m => .member .zero b.bare m
  | .element _ b is => .element .zero b.bare (Expr.bareAll is)
  | .deref _ b => .deref .zero b.bare

/-- The expression without its places and parentheses. -/
def Expr.bare : Expr → Expr
  | .literal _ l => .literal .zero l
  | .variable v => .variable v.bare
  | .unary _ op x => .unary .zero op x.bare
  | .binary _ op l r => .binary .zero op l.bare r.bare
  | .paren _ x => x.bare
  | .call _ name args => .call .zero name (Arg.bareAll args)
  | .repeated _ n (some x) => .repeated .zero n (some x.bare)
  | .repeated _ n none => .repeated .zero n none
  | .arrayInit _ es => .arrayInit .zero (Expr.bareAll es)
  | .structInit _ fs => .structInit .zero (Arg.bareAll fs)

/-- The argument without its places and parentheses. -/
def Arg.bare : Arg → Arg
  | .positional _ x => .positional .zero x.bare
  | .named _ n x => .named .zero n x.bare
  | .output _ n v negated => .output .zero n v.bare negated
  | .inferred _ => .inferred .zero

/-- Each expression of a list. -/
def Expr.bareAll : List Expr → List Expr
  | [] => []
  | x :: xs => x.bare :: Expr.bareAll xs

/-- Each argument of a list. -/
def Arg.bareAll : List Arg → List Arg
  | [] => []
  | x :: xs => x.bare :: Arg.bareAll xs

end

/-- The label without its places and parentheses. -/
def CaseSelector.bare : CaseSelector → CaseSelector
  | .value _ x => .value .zero x.bare
  | .range _ low high => .range .zero low.bare high.bare

mutual

/-- The statement without its places and parentheses. -/
def Stmt.bare : Stmt → Stmt
  | .assignment _ target op value => .assignment .zero target.bare op value.bare
  | .ifThen _ first elsifs none => .ifThen .zero first.bare (IfBranch.bareAll elsifs) none
  | .ifThen _ first elsifs (some ss) =>
    .ifThen .zero first.bare (IfBranch.bareAll elsifs) (some (Stmt.bareAll ss))
  | .caseOf _ selector branches none => .caseOf .zero selector.bare (CaseBranch.bareAll branches) none
  | .caseOf _ selector branches (some ss) =>
    .caseOf .zero selector.bare (CaseBranch.bareAll branches) (some (Stmt.bareAll ss))
  | .forLoop _ control start stop step body =>
    .forLoop .zero control start.bare stop.bare (step.map Expr.bare) (Stmt.bareAll body)
  | .whileLoop _ condition body => .whileLoop .zero condition.bare (Stmt.bareAll body)
  | .repeatLoop _ body condition => .repeatLoop .zero (Stmt.bareAll body) condition.bare
  | .exitLoop _ => .exitLoop .zero
  | .nextPass _ => .nextPass .zero
  | .leave _ value => .leave .zero (value.map Expr.bare)
  | .call _ _ name args => .call .zero .zero name (Arg.bareAll args)
  | .invoke _ callee args => .invoke .zero callee.bare (Arg.bareAll args)
  | .empty _ => .empty .zero
  | .goto _ label => .goto .zero label
  | .label _ name => .label .zero name
  | .region _ title body => .region .zero title (Stmt.bareAll body)

/-- The branch without its places and parentheses. -/
def IfBranch.bare : IfBranch → IfBranch
  | .mk _ condition body => .mk .zero condition.bare (Stmt.bareAll body)

/-- The branch without its places and parentheses. -/
def CaseBranch.bare : CaseBranch → CaseBranch
  | .mk _ selectors body => .mk .zero (selectors.map CaseSelector.bare) (Stmt.bareAll body)

/-- Each statement of a list. -/
def Stmt.bareAll : List Stmt → List Stmt
  | [] => []
  | s :: ss => s.bare :: Stmt.bareAll ss

/-- Each branch of a list. -/
def IfBranch.bareAll : List IfBranch → List IfBranch
  | [] => []
  | b :: bs => b.bare :: IfBranch.bareAll bs

/-- Each branch of a list. -/
def CaseBranch.bareAll : List CaseBranch → List CaseBranch
  | [] => []
  | b :: bs => b.bare :: CaseBranch.bareAll bs

end

theorem Expr.bareAll_eq_map (xs : List Expr) : Expr.bareAll xs = xs.map Expr.bare := by
  induction xs with
  | nil => rfl
  | cons x xs ih => rw [bareAll, ih, List.map_cons]

theorem Arg.bareAll_eq_map (xs : List Arg) : Arg.bareAll xs = xs.map Arg.bare := by
  induction xs with
  | nil => rfl
  | cons x xs ih => rw [bareAll, ih, List.map_cons]

theorem Stmt.bare_call (s callSpan : Span) (name : String) (args : List Arg) :
    (Stmt.call s callSpan name args).bare = .call .zero .zero name (args.map Arg.bare) := by
  rw [bare, Arg.bareAll_eq_map]

theorem Stmt.bare_invoke (s : Span) (callee : Variable) (args : List Arg) :
    (Stmt.invoke s callee args).bare = .invoke .zero callee.bare (args.map Arg.bare) := by
  rw [bare, Arg.bareAll_eq_map]

@[simp] theorem Stmt.bareAll_cons (s : Stmt) (ss : List Stmt) :
    Stmt.bareAll (s :: ss) = s.bare :: Stmt.bareAll ss := rfl

@[simp] theorem IfBranch.bareAll_cons (b : IfBranch) (bs : List IfBranch) :
    IfBranch.bareAll (b :: bs) = b.bare :: IfBranch.bareAll bs := rfl

@[simp] theorem CaseBranch.bareAll_cons (b : CaseBranch) (bs : List CaseBranch) :
    CaseBranch.bareAll (b :: bs) = b.bare :: CaseBranch.bareAll bs := rfl

theorem Variable.path?_bare (v : Variable) : v.bare.path? = v.path? := by
  fun_induction path? v with
  | case2 _ b m ih => rw [bare, path?, ih]
  | case1 | case3 | case4 | case5 => rfl

theorem Variable.root?_bare (v : Variable) : v.bare.root? = v.root? := by
  fun_induction root? v with
  | case1 | case2 => rfl
  | case3 _ b _ ih | case4 _ b _ ih | case5 _ b ih => exact ih

/-! ### Well-formed trees -/

/-- The literal has no type in front and is what its own text stands for. -/
def Literal.IsOwnText (l : Literal) : Prop :=
  l.typeName = none ∧
    ∃ limits s, (Reading.mk l.text.toList .generic limits).expression = .ok (.literal s l)

/-- The address is what its own text stands for. -/
def Address.IsOwnText (a : Address) (text : String) : Prop :=
  ∃ limits s,
    (Reading.mk text.toList .generic limits).expression = .ok (.variable (.address s text a))

/-- The names of a dotted name. -/
def segments (path : String) : List String :=
  (path.toList.splitOn '.').map String.ofList

/-- The text is a dotted name. -/
def IsPath (path : String) : Prop :=
  ∀ n ∈ segments path, isIdentifier .generic n = true

mutual

/-- Names are plain names, addresses stand for themselves, and every access to an element has an
index. -/
def Variable.WellFormed : Variable → Prop
  | .named _ n style => style = .plain ∧ isIdentifier .generic n = true
  | .address _ text a => a.IsOwnText text
  | .member _ b m => b.WellFormed ∧ isIdentifier .generic m = true
  | .element _ b is => b.WellFormed ∧ is ≠ [] ∧ Expr.WellFormedAll is
  | .deref _ b => b.WellFormed

/-- Literals stand for themselves, and there is no initial value of an array or a structure. -/
def Expr.WellFormed : Expr → Prop
  | .literal _ l => l.IsOwnText
  | .variable v => v.WellFormed
  | .unary _ _ x => x.WellFormed
  | .binary _ _ l r => l.WellFormed ∧ r.WellFormed
  | .paren _ x => x.WellFormed
  | .call _ name args => IsPath name ∧ Arg.WellFormedAll args
  | .repeated _ _ _ | .arrayInit _ _ | .structInit _ _ => False

/-- No place is left empty. -/
def Arg.WellFormed : Arg → Prop
  | .positional _ x => x.WellFormed
  | .named _ n x => isIdentifier .generic n = true ∧ x.WellFormed
  | .output _ n v _ => isIdentifier .generic n = true ∧ v.WellFormed
  | .inferred _ => False

/-- Each expression of a list. -/
def Expr.WellFormedAll : List Expr → Prop
  | [] => True
  | x :: xs => x.WellFormed ∧ Expr.WellFormedAll xs

/-- Each argument of a list. -/
def Arg.WellFormedAll : List Arg → Prop
  | [] => True
  | x :: xs => x.WellFormed ∧ Arg.WellFormedAll xs

end

/-- A label of a branch: a whole number, a negated one, or a dotted name. -/
def Expr.IsLabel : Expr → Prop
  | .literal _ l => (∃ n, l.value = .integer n) ∧ l.IsOwnText
  | .unary _ .neg (.literal _ l) => (∃ n, l.value = .integer n) ∧ l.IsOwnText
  | .variable v => v.path?.isSome = true ∧ v.WellFormed
  | _ => False

/-- One label, or a range of them. -/
def CaseSelector.WellFormed : CaseSelector → Prop
  | .value _ x => x.IsLabel
  | .range _ low high => low.IsLabel ∧ high.IsLabel

mutual

/-- The statement belongs to the generic language and can be told from the text alone, when the
given names are those of function block instances. -/
def Stmt.WellFormed (declared : List String) : Stmt → Prop
  | .assignment _ target op value => target.WellFormed ∧ op = .assign ∧ value.WellFormed
  | .ifThen _ first elsifs none => first.WellFormed declared ∧ IfBranch.WellFormedAll declared elsifs
  | .ifThen _ first elsifs (some ss) =>
    first.WellFormed declared ∧ IfBranch.WellFormedAll declared elsifs ∧
      Stmt.WellFormedAll declared ss
  | .caseOf _ selector branches none =>
    selector.WellFormed ∧ CaseBranch.WellFormedAll declared branches
  | .caseOf _ selector branches (some ss) =>
    selector.WellFormed ∧ CaseBranch.WellFormedAll declared branches ∧ Stmt.WellFormedAll declared ss
  | .forLoop _ control start stop step body =>
    isIdentifier .generic control = true ∧ start.WellFormed ∧ stop.WellFormed ∧
      (∀ x ∈ step, x.WellFormed) ∧ Stmt.WellFormedAll declared body
  | .whileLoop _ condition body => condition.WellFormed ∧ Stmt.WellFormedAll declared body
  | .repeatLoop _ body condition => Stmt.WellFormedAll declared body ∧ condition.WellFormed
  | .exitLoop _ | .nextPass _ | .empty _ => True
  | .leave _ value => ∀ x ∈ value, x.WellFormed
  | .call _ _ name args =>
    IsPath name ∧ (∀ r ∈ (segments name).head?, r ∉ declared) ∧ Arg.WellFormedAll args
  | .invoke _ callee args =>
    callee.WellFormed ∧ callee.path?.isSome = true ∧ (∀ r ∈ callee.root?, r ∈ declared) ∧
      Arg.WellFormedAll args
  | .goto _ _ | .label _ _ | .region _ _ _ => False

/-- The condition and the statements are well formed. -/
def IfBranch.WellFormed (declared : List String) : IfBranch → Prop
  | .mk _ condition body => condition.WellFormed ∧ Stmt.WellFormedAll declared body

/-- The labels and the statements are well formed. -/
def CaseBranch.WellFormed (declared : List String) : CaseBranch → Prop
  | .mk _ selectors body =>
    (∀ s ∈ selectors, s.WellFormed) ∧ Stmt.WellFormedAll declared body

/-- Each statement of a list. -/
def Stmt.WellFormedAll (declared : List String) : List Stmt → Prop
  | [] => True
  | s :: ss => s.WellFormed declared ∧ Stmt.WellFormedAll declared ss

/-- Each branch of a list. -/
def IfBranch.WellFormedAll (declared : List String) : List IfBranch → Prop
  | [] => True
  | b :: bs => b.WellFormed declared ∧ IfBranch.WellFormedAll declared bs

/-- Each branch of a list. -/
def CaseBranch.WellFormedAll (declared : List String) : List CaseBranch → Prop
  | [] => True
  | b :: bs => b.WellFormed declared ∧ CaseBranch.WellFormedAll declared bs

end

mutual

/-- Every branch of a `CASE` statement inside has a label. -/
def Stmt.IsLabelled : Stmt → Prop
  | .ifThen _ first elsifs none => first.IsLabelled ∧ IfBranch.IsLabelledAll elsifs
  | .ifThen _ first elsifs (some ss) =>
    first.IsLabelled ∧ IfBranch.IsLabelledAll elsifs ∧ Stmt.IsLabelledAll ss
  | .caseOf _ _ branches none => CaseBranch.IsLabelledAll branches
  | .caseOf _ _ branches (some ss) => CaseBranch.IsLabelledAll branches ∧ Stmt.IsLabelledAll ss
  | .forLoop _ _ _ _ _ body | .whileLoop _ _ body | .repeatLoop _ body _ | .region _ _ body =>
    Stmt.IsLabelledAll body
  | _ => True

/-- The statements of the branch are labelled. -/
def IfBranch.IsLabelled : IfBranch → Prop
  | .mk _ _ body => Stmt.IsLabelledAll body

/-- The branch has a label, and its statements are labelled. -/
def CaseBranch.IsLabelled : CaseBranch → Prop
  | .mk _ selectors body => selectors ≠ [] ∧ Stmt.IsLabelledAll body

/-- Each statement of a list. -/
def Stmt.IsLabelledAll : List Stmt → Prop
  | [] => True
  | s :: ss => s.IsLabelled ∧ Stmt.IsLabelledAll ss

/-- Each branch of a list. -/
def IfBranch.IsLabelledAll : List IfBranch → Prop
  | [] => True
  | b :: bs => b.IsLabelled ∧ IfBranch.IsLabelledAll bs

/-- Each branch of a list. -/
def CaseBranch.IsLabelledAll : List CaseBranch → Prop
  | [] => True
  | b :: bs => b.IsLabelled ∧ CaseBranch.IsLabelledAll bs

end

end Plc

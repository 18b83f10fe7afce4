/-
Trees whose text is read back, in any dialect.

A name must be one that the text can be told to be, a literal must be one token, and a
construct must belong to the dialect.  The well-formed trees of the generic language are
among them.

* `Expr.Printable`, `Stmt.Printable` — the trees of a dialect that are read back;
* `Expr.Labels` — what may stand before the colon of a branch;
* `Stmt.WellFormedAll.printable` — well-formed statements whose branches are labelled.
-/
import Plc.Proofs.RoundTrip.OwnText

namespace Plc

open Lexed Grammar

/-! ### Tokens -/

/-- The text is one token, and the token means the literal. -/
def Literal.IsToken (d : Dialect) (l : Literal) : Prop :=
  ∃ w : Word, w.IsOperand d ∧ w.text = l.text ∧ ∀ t : Token, t.word = w → t.Means l

/-- The text is one token, the address. -/
def Address.IsToken (d : Dialect) (a : Address) (text : String) : Prop :=
  (Word.mk (.address a) text).IsOperand d

/-- The text is one token, a whole number. -/
def IsNumeral (d : Dialect) (text : String) : Prop :=
  ∃ n, (Word.mk (.integer n) text).IsOperand d

/-- The text is a dotted name of the dialect. -/
def IsDotted (d : Dialect) (path : String) : Prop :=
  ∀ n ∈ segments path, isIdentifier d n = true

/-! ### Expressions -/

/-- Neither an address nor a number stands last, so that a number after a point is a token. -/
def Variable.takesNumeral (d : Dialect) : Variable → Bool
  | .address _ _ _ => false
  | .member _ _ m => isIdentifier d m
  | _ => true

/-- There is no gap between the parentheses, or another argument beside it. -/
def Arg.Visible (args : List Arg) : Prop :=
  ∀ s, args ≠ [.inferred s]

mutual

/-- The text of the variable is read back in the dialect. -/
def Variable.Printable (d : Dialect) : Variable → Prop
  | .named _ n .plain => isIdentifier d n = true
  | .named _ n .quoted => d.quotedNames = true ∧ '"' ∉ n.toList
  | .named _ n .blockLocal => d.localMark = true ∧ isIdentifier d n = true
  | .address _ text a => a.IsToken d text
  | .member _ b m =>
    b.Printable d ∧ (isIdentifier d m = true ∨ b.takesNumeral d = true ∧ IsNumeral d m)
  | .element _ b is => b.Printable d ∧ is ≠ [] ∧ Expr.PrintableAll d is
  | .deref _ b => d.objects = true ∧ b.Printable d

/-- The text of the expression is read back in the dialect. -/
def Expr.Printable (d : Dialect) : Expr → Prop
  | .literal _ l => l.IsToken d
  | .variable v => v.Printable d
  | .unary _ _ x => x.Printable d
  | .binary _ _ l r => l.Printable d ∧ r.Printable d
  | .paren _ x => x.Printable d
  | .call _ name args => IsDotted d name ∧ Arg.Visible args ∧ Arg.PrintableAll d args
  | .repeated _ _ _ | .arrayInit _ _ | .structInit _ _ => False

/-- The text of the argument is read back in the dialect. -/
def Arg.Printable (d : Dialect) : Arg → Prop
  | .positional _ x => x.Printable d
  | .named _ n x => isIdentifier d n = true ∧ x.Printable d
  | .output _ n v _ => isIdentifier d n = true ∧ v.Printable d
  | .inferred _ => d.inferredArguments = true

/-- Each expression of a list. -/
def Expr.PrintableAll (d : Dialect) : List Expr → Prop
  | [] => True
  | x :: xs => x.Printable d ∧ Expr.PrintableAll d xs

/-- Each argument of a list. -/
def Arg.PrintableAll (d : Dialect) : List Arg → Prop
  | [] => True
  | x :: xs => x.Printable d ∧ Arg.PrintableAll d xs

end

/-! ### Labels -/

/-- The variable is a plain name, with names after points. -/
def Variable.IsDotted (d : Dialect) : Variable → Prop
  | .named _ n .plain => isIdentifier d n = true
  | .member _ b m => b.IsDotted d ∧ isIdentifier d m = true
  | _ => False

theorem Variable.IsDotted.printable {d : Dialect} : ∀ {v : Variable}, v.IsDotted d → v.Printable d
  | .named _ _ .plain, h => h
  | .member _ _ _, ⟨hb, hm⟩ => ⟨Variable.IsDotted.printable hb, .inl hm⟩

/-- A branch may begin with the value. -/
def Literal.Value.isLabel : Literal.Value → Bool
  | .integer _ | .real _ | .string _ => true
  | _ => false

/-- A branch may begin with the value after a minus sign. -/
def Literal.Value.isNumber : Literal.Value → Bool
  | .integer _ | .real _ => true
  | _ => false

/-- The expression may stand before the colon of a branch: a number, a negated one, a text, or a
dotted name in the dialects where a name may begin a branch. -/
def Expr.Labels (d : Dialect) : Expr → Prop
  | .literal _ l => l.value.isLabel = true ∧ l.IsToken d
  | .unary _ .neg (.literal _ l) => l.value.isNumber = true ∧ l.IsToken d
  | .variable v => d.namedCaseLabels = true ∧ v.IsDotted d
  | _ => False

/-- One label, or a range of them. -/
def CaseSelector.Labels (d : Dialect) : CaseSelector → Prop
  | .value _ x => x.Labels d
  | .range _ low high => low.Labels d ∧ high.Labels d

/-! ### Statements -/

/-- The statement is the target of jumps. -/
def Stmt.isTarget : Stmt → Bool
  | .label _ _ => true
  | _ => false

mutual

/-- The text of the statement is read back in the dialect, when the given names are those of
function block instances. -/
def Stmt.Printable (d : Dialect) (declared : List String) : Stmt → Prop
  | .assignment _ target op value =>
    target.Printable d ∧ (op = .assign ∨ d.compoundAssignment = true) ∧ value.Printable d
  | .ifThen _ first elsifs none =>
    first.Printable d declared ∧ IfBranch.PrintableAll d declared elsifs
  | .ifThen _ first elsifs (some ss) =>
    first.Printable d declared ∧ IfBranch.PrintableAll d declared elsifs ∧
      Stmt.PrintableAll d declared ss
  | .caseOf _ selector branches none =>
    selector.Printable d ∧ CaseBranch.PrintableAll d declared branches
  | .caseOf _ selector branches (some ss) =>
    selector.Printable d ∧ CaseBranch.PrintableAll d declared branches ∧
      Stmt.PrintableAll d declared ss
  | .forLoop _ control start stop step body =>
    isIdentifier d control = true ∧ start.Printable d ∧ stop.Printable d ∧
      (∀ x ∈ step, x.Printable d) ∧ Stmt.PrintableAll d declared body
  | .whileLoop _ condition body => condition.Printable d ∧ Stmt.PrintableAll d declared body
  | .repeatLoop _ body condition => Stmt.PrintableAll d declared body ∧ condition.Printable d
  | .exitLoop _ | .nextPass _ | .empty _ => True
  | .leave _ value => ∀ x ∈ value, x.Printable d
  | .call _ _ name args =>
    Plc.IsDotted d name ∧ (∀ r ∈ (segments name).head?, r ∉ declared) ∧ Arg.Visible args ∧
      Arg.PrintableAll d args
  | .invoke _ callee args =>
    callee.Printable d ∧ callee.path?.isSome = true ∧ (∀ r ∈ callee.root?, r ∈ declared) ∧
      Arg.Visible args ∧ Arg.PrintableAll d args
  | .goto _ name | .label _ name => d.blocks = true ∧ isIdentifier d name = true
  | .region _ _ _ => False

/-- The text of the condition and the statements is read back. -/
def IfBranch.Printable (d : Dialect) (declared : List String) : IfBranch → Prop
  | .mk _ condition body => condition.Printable d ∧ Stmt.PrintableAll d declared body

/-- The branch has labels, and none of its statements looks like one. -/
def CaseBranch.Printable (d : Dialect) (declared : List String) : CaseBranch → Prop
  | .mk _ selectors body =>
    selectors ≠ [] ∧ (∀ s ∈ selectors, s.Labels d) ∧ Stmt.PrintableAll d declared body ∧
      (d.namedCaseLabels = true → ∀ s ∈ body, s.isTarget = false)

/-- Each statement of a list. -/
def Stmt.PrintableAll (d : Dialect) (declared : List String) : List Stmt → Prop
  | [] => True
  | s :: ss => s.Printable d declared ∧ Stmt.PrintableAll d declared ss

/-- Each branch of a list. -/
def IfBranch.PrintableAll (d : Dialect) (declared : List String) : List IfBranch → Prop
  | [] => True
  | b :: bs => b.Printable d declared ∧ IfBranch.PrintableAll d declared bs

/-- Each branch of a list. -/
def CaseBranch.PrintableAll (d : Dialect) (declared : List String) : List CaseBranch → Prop
  | [] => True
  | b :: bs => b.Printable d declared ∧ CaseBranch.PrintableAll d declared bs

end

/-! ### Well-formed trees -/

/-- No argument of a well-formed call is left out. -/
theorem Arg.WellFormedAll.visible {args : List Arg} (h : Arg.WellFormedAll args) :
    Arg.Visible args := by
  rintro s rfl
  exact h.1

mutual

theorem Variable.WellFormed.printable : ∀ {v : Variable}, v.WellFormed → v.Printable .generic
  | .named _ n _, ⟨plain, hn⟩ => by
    subst plain
    exact hn
  | .address _ _ _, h => Address.IsOwnText.word h
  | .member _ b _, ⟨hb, hm⟩ => ⟨Variable.WellFormed.printable (v := b) hb, .inl hm⟩
  | .element _ b _, ⟨hb, some_index, his⟩ =>
    ⟨Variable.WellFormed.printable (v := b) hb, some_index, Expr.WellFormedAll.printable his⟩
  | .deref _ b, hb => ⟨rfl, Variable.WellFormed.printable (v := b) hb⟩

theorem Expr.WellFormed.printable : ∀ {e : Expr}, e.WellFormed → e.Printable .generic
  | .literal _ _, h => Literal.IsOwnText.word h
  | .variable v, h => Variable.WellFormed.printable (v := v) h
  | .unary _ _ x, h => Expr.WellFormed.printable (e := x) h
  | .binary _ _ l r, ⟨hl, hr⟩ =>
    ⟨Expr.WellFormed.printable (e := l) hl, Expr.WellFormed.printable (e := r) hr⟩
  | .paren _ x, h => Expr.WellFormed.printable (e := x) h
  | .call _ _ _, ⟨path, hargs⟩ =>
    ⟨path, Arg.WellFormedAll.visible hargs, Arg.WellFormedAll.printable hargs⟩

theorem Arg.WellFormed.printable : ∀ {a : Arg}, a.WellFormed → a.Printable .generic
  | .positional _ x, h => Expr.WellFormed.printable (e := x) h
  | .named _ _ x, ⟨hn, hx⟩ => ⟨hn, Expr.WellFormed.printable (e := x) hx⟩
  | .output _ _ v _, ⟨hn, hv⟩ => ⟨hn, Variable.WellFormed.printable (v := v) hv⟩

theorem Expr.WellFormedAll.printable :
    ∀ {xs : List Expr}, Expr.WellFormedAll xs → Expr.PrintableAll .generic xs
  | [], _ => trivial
  | x :: _, ⟨hx, hxs⟩ => ⟨Expr.WellFormed.printable (e := x) hx, Expr.WellFormedAll.printable hxs⟩

theorem Arg.WellFormedAll.printable :
    ∀ {xs : List Arg}, Arg.WellFormedAll xs → Arg.PrintableAll .generic xs
  | [], _ => trivial
  | _ :: _, ⟨hx, hxs⟩ => ⟨Arg.WellFormed.printable hx, Arg.WellFormedAll.printable hxs⟩

end

theorem Variable.WellFormed.isDotted : ∀ {v : Variable}, v.WellFormed → v.path?.isSome = true →
    v.IsDotted .generic
  | .named _ n _, ⟨plain, hn⟩, _ => by
    subst plain
    exact hn
  | .member _ b m, ⟨hb, hm⟩, path => by
    rw [path?, Option.isSome_map] at path
    exact ⟨Variable.WellFormed.isDotted hb path, hm⟩

theorem Expr.IsLabel.labels : ∀ {e : Expr}, e.IsLabel → e.Labels .generic
  | .literal _ l, ⟨⟨n, hn⟩, h⟩ => ⟨by rw [hn]; rfl, Literal.IsOwnText.word h⟩
  | .unary _ .neg (.literal _ l), ⟨⟨n, hn⟩, h⟩ => ⟨by rw [hn]; rfl, Literal.IsOwnText.word h⟩
  | .variable _, ⟨path, h⟩ => ⟨rfl, h.isDotted path⟩

theorem CaseSelector.WellFormed.labels {s : CaseSelector} (h : s.WellFormed) :
    s.Labels .generic := by
  cases s with
  | value _ x => exact Expr.IsLabel.labels h
  | range _ low high => exact ⟨h.1.labels, h.2.labels⟩

section

variable {declared : List String}

theorem Stmt.WellFormedAll.not_isTarget : ∀ {ss : List Stmt}, Stmt.WellFormedAll declared ss →
    ∀ s ∈ ss, s.isTarget = false
  | [], _ => nofun
  | s :: _, ⟨hs, hss⟩ => by
    refine List.forall_mem_cons.2 ⟨?_, Stmt.WellFormedAll.not_isTarget hss⟩
    cases s with
    | label => exact hs.elim
    | _ => rfl

mutual

theorem Stmt.WellFormed.printable : ∀ {s : Stmt}, s.WellFormed declared → s.IsLabelled →
    s.Printable .generic declared
  | .assignment _ _ _ _, ⟨ht, hop, hv⟩, _ => ⟨ht.printable, .inl hop, hv.printable⟩
  | .ifThen _ _ _ none, ⟨hf, he⟩, ⟨lf, le⟩ =>
    ⟨IfBranch.WellFormed.printable hf lf, IfBranch.WellFormedAll.printable he le⟩
  | .ifThen _ _ _ (some _), ⟨hf, he, hss⟩, ⟨lf, le, lss⟩ =>
    ⟨IfBranch.WellFormed.printable hf lf, IfBranch.WellFormedAll.printable he le,
      Stmt.WellFormedAll.printable hss lss⟩
  | .caseOf _ _ _ none, ⟨hs, hb⟩, lb =>
    ⟨hs.printable, CaseBranch.WellFormedAll.printable hb lb⟩
  | .caseOf _ _ _ (some _), ⟨hs, hb, hss⟩, ⟨lb, lss⟩ =>
    ⟨hs.printable, CaseBranch.WellFormedAll.printable hb lb, Stmt.WellFormedAll.printable hss lss⟩
  | .forLoop _ _ _ _ _ _, ⟨hn, hstart, hstop, hstep, hb⟩, lb =>
    ⟨hn, hstart.printable, hstop.printable, fun x hx => (hstep x hx).printable,
      Stmt.WellFormedAll.printable hb lb⟩
  | .whileLoop _ _ _, ⟨hc, hb⟩, lb => ⟨hc.printable, Stmt.WellFormedAll.printable hb lb⟩
  | .repeatLoop _ _ _, ⟨hb, hc⟩, lb => ⟨Stmt.WellFormedAll.printable hb lb, hc.printable⟩
  | .exitLoop _, _, _ | .nextPass _, _, _ | .empty _, _, _ => trivial
  | .leave _ _, h, _ => fun x hx => (h x hx).printable
  | .call _ _ _ _, ⟨path, free, hargs⟩, _ => ⟨path, free, hargs.visible, hargs.printable⟩
  | .invoke _ _ _, ⟨hc, path, known, hargs⟩, _ =>
    ⟨hc.printable, path, known, hargs.visible, hargs.printable⟩

theorem IfBranch.WellFormed.printable : ∀ {b : IfBranch}, b.WellFormed declared → b.IsLabelled →
    b.Printable .generic declared
  | .mk _ _ _, ⟨hc, hb⟩, lb => ⟨hc.printable, Stmt.WellFormedAll.printable hb lb⟩

theorem CaseBranch.WellFormed.printable : ∀ {b : CaseBranch}, b.WellFormed declared →
    b.IsLabelled → b.Printable .generic declared
  | .mk _ _ _, ⟨hs, hb⟩, ⟨labelled, lb⟩ =>
    ⟨labelled, fun s h => (hs s h).labels, Stmt.WellFormedAll.printable hb lb,
      fun _ => Stmt.WellFormedAll.not_isTarget hb⟩

/-- Well-formed statements are read back when their branches are labelled. -/
theorem Stmt.WellFormedAll.printable : ∀ {ss : List Stmt}, Stmt.WellFormedAll declared ss →
    Stmt.IsLabelledAll ss → Stmt.PrintableAll .generic declared ss
  | [], _, _ => trivial
  | s :: _, ⟨hs, hss⟩, ⟨ls, lss⟩ =>
    ⟨Stmt.WellFormed.printable (s := s) hs ls, Stmt.WellFormedAll.printable hss lss⟩

theorem IfBranch.WellFormedAll.printable : ∀ {bs : List IfBranch},
    IfBranch.WellFormedAll declared bs → IfBranch.IsLabelledAll bs →
      IfBranch.PrintableAll .generic declared bs
  | [], _, _ => trivial
  | _ :: _, ⟨hb, hbs⟩, ⟨lb, lbs⟩ =>
    ⟨IfBranch.WellFormed.printable hb lb, IfBranch.WellFormedAll.printable hbs lbs⟩

theorem CaseBranch.WellFormedAll.printable : ∀ {bs : List CaseBranch},
    CaseBranch.WellFormedAll declared bs → CaseBranch.IsLabelledAll bs →
      CaseBranch.PrintableAll .generic declared bs
  | [], _, _ => trivial
  | _ :: _, ⟨hb, hbs⟩, ⟨lb, lbs⟩ =>
    ⟨CaseBranch.WellFormed.printable hb lb, CaseBranch.WellFormedAll.printable hbs lbs⟩

end

end

end Plc

/-
How the words of a tree begin.

A few words ahead decide what is read, so the first words of an expression must not
look like those of a named argument or of a literal with its type in front.

* `Opens`, `OpensVariable` — the words begin as those of an expression or a variable do;
* `Variable.opens`, `Expr.opens`, `Arg.opens` — the words of variables, expressions and arguments.
-/
import Plc.Proofs.RoundTrip.Layout
import Plc.Proofs.RoundTrip.Reads

namespace Plc

open Grammar Lexed

/-- The lexeme may stand second in an expression. -/
def isInner : Lexeme → Bool
  | .mark .assign | .mark .arrow => false
  | _ => true

/-- A part of a variable follows. -/
def isAccess : Lexeme → Bool
  | .mark .dot | .mark .leftBracket | .mark .caret => true
  | _ => false

/-- A variable begins with the lexeme. -/
def opensVariable : Lexeme → Bool
  | .name | .quotedName _ | .mark .hash | .address _ => true
  | _ => false

theorem opensVariable_cases {l : Lexeme} (h : opensVariable l = true) :
    l = .name ∨ (∃ n, l = .quotedName n) ∨ l = .mark .hash ∨ ∃ a, l = .address a := by
  unfold opensVariable at h
  split at h
  · exact .inl rfl
  · exact .inr (.inl ⟨_, rfl⟩)
  · exact .inr (.inr (.inl rfl))
  · exact .inr (.inr (.inr ⟨_, rfl⟩))
  · cases h

/-- An expression begins with the lexeme. -/
def opensExpression : Lexeme → Bool
  | .name | .quotedName _ | .keyword .NOT | .mark .hash | .mark .minus | .mark .leftParen => true
  | l => isOperand l

theorem opensExpression_of_opensVariable {l : Lexeme} (h : opensVariable l = true) :
    opensExpression l = true := by
  obtain rfl | ⟨n, rfl⟩ | rfl | ⟨a, rfl⟩ := opensVariable_cases h
  all_goals rfl

theorem opensExpression_of_isOperand {l : Lexeme} (h : isOperand l = true) :
    opensExpression l = true := by
  unfold opensExpression
  split
  all_goals first | rfl | exact h

theorem isInner_of_opensExpression {l : Lexeme} (h : opensExpression l = true) :
    isInner l = true := by
  cases l with
  | mark m => cases m <;> first | rfl | cases h
  | _ => rfl

/-- A mark of another class. -/
theorem not_is_of {p : Lexeme → Bool} {l : Lexeme} (h : p l = true) {m : Mark}
    (hm : p (.mark m) = false) : l.is m = false := by
  cases l with
  | mark m' =>
    refine beq_eq_false_iff_ne.2 ?_
    rintro rfl
    rw [h] at hm
    cases hm
  | _ => rfl

theorem isInner_of_isAccess {l : Lexeme} (h : isAccess l = true) : isInner l = true := by
  unfold isAccess at h
  split at h
  all_goals first | rfl | cases h

theorem BinaryOp.isInner_lexeme (op : BinaryOp) : isInner op.lexeme = true := by
  cases op <;> rfl

/-- The words begin as those of an expression do. -/
def Opens (ws : List Word) : Prop :=
  ∃ w ws', ws = w :: ws' ∧ opensExpression w.lexeme = true ∧
    (∀ v ∈ ws'.head?, isInner v.lexeme = true) ∧
    (w.lexeme = .keyword .NOT → ∃ v vs, ws' = v :: vs ∧ ∀ u ∈ vs.head?, isInner u.lexeme = true)

namespace Opens

variable {w : Word} {ws ws' : List Word}

theorem single (h : opensExpression w.lexeme = true) (other : w.lexeme ≠ .keyword .NOT) :
    Opens [w] :=
  ⟨w, [], rfl, h, by rintro _ ⟨⟩, fun same => absurd same other⟩

theorem append (h : Opens ws) (h' : ∀ v ∈ ws'.head?, isInner v.lexeme = true) :
    Opens (ws ++ ws') := by
  obtain ⟨w, rest, rfl, opens, second, third⟩ := h
  refine ⟨w, rest ++ ws', rfl, opens, ?_, fun negation => ?_⟩
  · cases rest with
    | nil => exact h'
    | cons v vs => exact second
  · obtain ⟨v, vs, rfl, later⟩ := third negation
    refine ⟨v, vs ++ ws', rfl, ?_⟩
    cases vs with
    | nil => exact h'
    | cons u us => exact later

/-- One word before those of an expression. -/
theorem cons (h : Opens ws) (hw : opensExpression w.lexeme = true) : Opens (w :: ws) := by
  obtain ⟨v, vs, rfl, opens, second, -⟩ := h
  refine ⟨w, v :: vs, rfl, hw, ?_, fun _ => ⟨v, vs, rfl, second⟩⟩
  rintro _ ⟨⟩
  exact isInner_of_opensExpression opens

theorem parens (h : Opens ws) : Opens (parenWords ws) :=
  (h.append (by rintro _ ⟨⟩; rfl)).cons rfl

end Opens

/-- The words begin as those of a variable do: nothing but an access follows a name. -/
def OpensVariable (ws : List Word) : Prop :=
  ∃ w ws', ws = w :: ws' ∧ opensVariable w.lexeme = true ∧
    (∀ v ∈ ws'.head?, isInner v.lexeme = true) ∧
    (w.lexeme.isName = true → ∀ v ∈ ws'.head?, isAccess v.lexeme = true)

namespace OpensVariable

variable {w : Word} {ws ws' : List Word}

theorem single (h : opensVariable w.lexeme = true) : OpensVariable [w] :=
  ⟨w, [], rfl, h, by rintro _ ⟨⟩, by rintro _ _ ⟨⟩⟩

theorem append (h : OpensVariable ws) (h' : ∀ v ∈ ws'.head?, isAccess v.lexeme = true) :
    OpensVariable (ws ++ ws') := by
  obtain ⟨w, rest, rfl, opens, second, access⟩ := h
  refine ⟨w, rest ++ ws', rfl, opens, ?_⟩
  cases rest with
  | nil => exact ⟨fun v hv => isInner_of_isAccess (h' v hv), fun _ => h'⟩
  | cons v vs => exact ⟨second, access⟩

theorem opens (h : OpensVariable ws) : Opens ws := by
  obtain ⟨w, rest, rfl, opens, second, -⟩ := h
  refine ⟨w, rest, rfl, opensExpression_of_opensVariable opens, second, fun negation => ?_⟩
  rw [negation] at opens
  cases opens

end OpensVariable

section

variable {d : Dialect}

/-- The words of a variable begin with a name or an address. -/
theorem Variable.opens : ∀ v : Variable, v.Printable d → OpensVariable (v.words d)
  | .named _ n .plain, _ => .single rfl
  | .named _ n .quoted, _ => .single rfl
  | .named _ n .blockLocal, _ => ⟨.mark .hash, [.name n], rfl, rfl, by rintro _ ⟨⟩; rfl, nofun⟩
  | .address _ text a, operand => by
    rw [words, show Word.ofText d text = _ from Word.IsOperand.ofText_eq operand]
    exact .single rfl
  | .member _ b m, ⟨hb, _⟩ => by
    rw [words]
    exact (Variable.opens b hb).append (by rintro _ ⟨⟩; rfl)
  | .element _ b is, ⟨hb, _⟩ => by
    rw [words]
    exact (Variable.opens b hb).append (by rintro _ ⟨⟩; rfl)
  | .deref _ b, ⟨_, hb⟩ => by
    rw [words]
    exact (Variable.opens b hb).append (by rintro _ ⟨⟩; rfl)

theorem pathWords_opens (path : String) : OpensVariable (pathWords d path) := by
  have access (ns : List String) : ∀ v ∈ (memberWords d ns).head?, isAccess v.lexeme = true := by
    cases ns with
    | nil => rintro _ ⟨⟩
    | cons m ms =>
      rintro _ ⟨⟩
      rfl
  obtain ⟨n, ns, same, -⟩ := eq_members d path
  unfold pathWords
  rw [same]
  exact (OpensVariable.single (w := .name n) rfl).append (access ns)

/-- The words of an expression begin as they should. -/
theorem Expr.opens : ∀ (e : Expr) (outer : Nat), e.Printable d → Opens (e.words d outer)
  -- The first word is that of the leftmost part, a sign or a bracket; behind a left operand comes
  -- its operator, which begins no access.
  | .literal _ l, _, h => by
    obtain ⟨w, operand, written, -⟩ := h
    rw [words, ← written, operand.ofText_eq]
    refine .single (opensExpression_of_isOperand operand.operand) fun negation => ?_
    have constant := operand.operand
    rw [negation] at constant
    cases constant
  | .variable v, _, h => by
    rw [words]
    exact (v.opens h).opens
  | .unary _ .not x, _, h => by
    rw [words]
    exact (Expr.opens x _ h).cons rfl
  | .unary _ .neg x, _, h => by
    rw [words]
    refine Opens.cons ?_ rfl
    split
    · exact (Expr.opens x _ h).parens
    · exact Expr.opens x _ h
  | .binary _ op l r, outer, ⟨hl, _⟩ => by
    rw [words]
    have whole {ws : List Word} (h : Opens ws) (ws' : List Word) : Opens (ws ++ op.word :: ws') := by
      refine h.append ?_
      rintro _ ⟨⟩
      exact op.isInner_lexeme
    -- The left operand is written with or without brackets.
    have left (bracketed : Bool) (p : Nat) :
        Opens (if bracketed then parenWords (l.words d 0) else l.words d p) := by
      cases bracketed with
      | true => exact (Expr.opens l 0 hl).parens
      | false => exact Expr.opens l p hl
    dsimp only
    split
    · exact (whole (left _ _) _).parens
    · exact whole (left _ _) _
  | .paren _ x, _, h => by
    rw [words]
    exact (Expr.opens x 0 h).parens
  | .call _ path args, _, _ => by
    rw [words]
    refine (pathWords_opens path).opens.append ?_
    rintro _ ⟨⟩
    rfl

/-- A gap has no words; those of any other argument begin as they should. -/
def Arg.Begins (d : Dialect) (a : Arg) : Prop :=
  (∃ s, a = .inferred s) ∨ ∃ w ws, a.words d = w :: ws ∧ opensExpression w.lexeme = true

theorem Arg.opens : ∀ a : Arg, a.Printable d → a.Begins d
  | .positional _ x, h => by
    obtain ⟨w, ws, same, first, -⟩ := x.opens 0 h
    exact .inr ⟨w, ws, same, first⟩
  | .named _ n _, _ => .inr ⟨.name n, _, rfl, rfl⟩
  | .output _ n v true, _ => .inr ⟨.keyword .NOT, _, rfl, rfl⟩
  | .output _ n v false, _ => .inr ⟨.name n, _, rfl, rfl⟩
  | .inferred s, _ => .inl ⟨s, rfl⟩

theorem Arg.opensAll (xs : List Arg) (h : Arg.PrintableAll d xs) : ∀ a ∈ xs, a.Begins d := by
  induction xs with
  | nil => exact fun _ ha => absurd ha List.not_mem_nil
  | cons x xs ih =>
    obtain ⟨hx, hxs⟩ := h
    exact List.forall_mem_cons.2 ⟨x.opens hx, ih hxs⟩

end

end Plc

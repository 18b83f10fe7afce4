/-
Operands are read back.

The words of a variable, of an argument or of a call are read as what they were printed
from, where something follows that does not go on with them.

* `Stops` — what may follow an expression;
* `Variable.ReadsBack` — the variable is read, and then what may access its parts;
* `Expr.IsItem`, `Arg.IsItem` — the expression or argument is read in a list.
-/
import Plc.Proofs.RoundTrip.Opening

namespace Plc

open Grammar Lexed

/-- The lexeme goes on with a variable, or with the name that begins it. -/
def goesOn : Lexeme → Bool
  | .mark .leftParen | .mark .hash => true
  | l => isAccess l

/-- What follows does not go on with an operand, and an operator in it binds less than asked for. -/
structure Stops (least : Nat) (ws : List Word) : Prop where
  apart : goesOn (ahead ws 0) = false
  looser : ∀ op, BinaryOp.ofLexeme? (ahead ws 0) = some op → op.precedence < least

theorem Stops.mono {least least' : Nat} {ws : List Word} (h : Stops least ws)
    (weaker : least ≤ least') : Stops least' ws :=
  ⟨h.apart, fun op same => Nat.lt_of_lt_of_le (h.looser op same) weaker⟩

/-- What is no operator binds less than any. -/
theorem Stops.of_none {least : Nat} {ws : List Word} (apart : goesOn (ahead ws 0) = false)
    (none : BinaryOp.ofLexeme? (ahead ws 0) = none) : Stops least ws := by
  refine ⟨apart, fun op same => ?_⟩
  rw [none] at same
  cases same

theorem not_isAccess_of_not_goesOn {l : Lexeme} (h : goesOn l = false) : isAccess l = false := by
  unfold goesOn at h
  split at h
  · cases h
  · cases h
  · exact h

/-- A comma or a closing parenthesis follows. -/
def ClosesArgument (ws : List Word) : Prop :=
  ahead ws 0 = .mark .comma ∨ ahead ws 0 = .mark .rightParen

theorem ClosesArgument.stops {ws : List Word} (h : ClosesArgument ws) : Stops 1 ws := by
  obtain same | same := h
  · exact Stops.of_none (same ▸ rfl) (same ▸ rfl)
  · exact Stops.of_none (same ▸ rfl) (same ▸ rfl)

/-- The expression is read in a list. -/
def Expr.IsItem (d : Dialect) (x : Expr) : Prop :=
  ∀ names levels, Reads.Item d names Expr.bare (Expr.words d 0) (Stops 1)
    (Grammar.expression levels) x

/-- The argument is read in a list. -/
def Arg.IsItem (d : Dialect) (x : Arg) : Prop :=
  ∀ names levels, Reads.Item d names Arg.bare (Arg.words d) ClosesArgument
    (argumentOrGap (Grammar.expression levels)) x

variable {d : Dialect}

theorem Expr.wordsEach_eq_map (xs : List Expr) :
    Expr.wordsEach d xs = xs.map (Expr.words d 0) := by
  induction xs with
  | nil => rfl
  | cons x xs ih => rw [wordsEach, ih, List.map_cons]

theorem Arg.wordsEach_eq_map (xs : List Arg) : Arg.wordsEach d xs = xs.map (Arg.words d) := by
  induction xs with
  | nil => rfl
  | cons x xs ih => rw [wordsEach, ih, List.map_cons]

/-! ### Variables -/

/-- The accesses to a variable, when some passes are left. -/
def Grammar.accesses (expression : Rule Expr) (n : Nat) (v : Variable) : Rule Variable :=
  repeating (fun _ => return .inr ()) (fun v () => variableAccess expression v) n v

/-- The words of the variable are read as the variable, and then more accesses may follow. -/
def Variable.ReadsBack (d : Dialect) (v : Variable) : Prop :=
  ∀ names levels (Q : Variable → Prop) rest ws',
    (∀ n v', v'.bare = v.bare →
      Reads d names (accesses (Grammar.expression levels) n v') Q rest ws') →
    Reads d names (variableWith (Grammar.expression levels)) Q (v.words d ++ rest) ws'

namespace Variable

variable {names : List (List String)} {levels : Nat} {rest : List Word}

theorem ReadsBack.of_root {v : Variable}
    (h : ∀ names rest, Reads d names variableRoot (·.bare = v.bare) (v.words d ++ rest) rest) :
    v.ReadsBack d := by
  intro names levels Q rest ws' more
  exact (h names rest).bind fun root hroot => Reads.passes.bind fun n _ => more n root hroot

/-- One more access is read. -/
theorem ReadsBack.of_access {v base : Variable} {ws : List Word} (hb : base.ReadsBack d)
    (words : v.words d = base.words d ++ ws)
    (h : ∀ names levels rest b, b.bare = base.bare → Reads d names
      (variableAccess (Grammar.expression levels) b)
      (Sum.elim (fun _ => False) (·.bare = v.bare)) (ws ++ rest) rest) : v.ReadsBack d := by
  intro names levels Q rest ws' more
  rw [words, List.append_assoc]
  refine hb names levels Q _ ws' fun n b same => ?_
  rw [accesses]
  refine Reads.repeating_more (c := ()) ?_ (h names levels rest b same) more n
  exact .pure rfl

/-- The whole variable is read where no access follows. -/
theorem ReadsBack.whole {v : Variable} (h : v.ReadsBack d) (ends : isAccess (ahead rest 0) = false) :
    Reads d names (variableWith (Grammar.expression levels)) (·.bare = v.bare)
      (v.words d ++ rest) rest := by
  refine h names levels _ rest rest fun n v' same => ?_
  have none_of (m : Mark) (hm : isAccess (.mark m) = true) : (ahead rest 0).is m = false := by
    cases hl : ahead rest 0 with
    | mark m' =>
      rw [hl] at ends
      refine beq_eq_false_iff_ne.2 ?_
      rintro rfl
      exact absurd hm (by rw [ends]; exact Bool.false_ne_true)
    | _ => rfl
  rw [accesses]
  refine Reads.repeating_last (c := ()) (b := v') ?_ ?_ same n
  · exact .pure rfl
  refine .look (.sees _) (.look (.lexemeAt 1) (.ite_neg ?_ ?_))
  · rw [none_of .dot rfl, Bool.false_and]
    exact Bool.false_ne_true
  refine .look (.sees _) (.ite_neg ?_ ?_)
  · rw [none_of .leftBracket rfl]
    exact Bool.false_ne_true
  refine .look (.sees _) (.look .dialect (.ite_neg ?_ (.pure rfl)))
  rw [none_of .caret rfl, Bool.false_and]
  exact Bool.false_ne_true

theorem readsBack_named (s : Span) (n : String) : (named s n .plain).ReadsBack d := by
  refine .of_root fun names rest => ?_
  refine Reads.peek.bind fun t ht => Reads.dialect.bind fun _ _ => ?_
  have lexeme : t.lexeme = .name := congrArg Word.lexeme ht
  have text : t.text = n := congrArg Word.text ht
  rw [lexeme, text]
  exact Reads.advance.bind fun _ _ => (Reads.node _ _).mono (by rintro _ ⟨s, rfl⟩; rfl)

theorem readsBack_quoted (s : Span) (n : String) (hd : d.quotedNames = true) :
    (named s n .quoted).ReadsBack d := by
  refine .of_root fun names rest => ?_
  refine Reads.peek.bind fun t ht => .look .dialect ?_
  have lexeme : t.lexeme = .quotedName n := congrArg Word.lexeme ht
  rw [lexeme]
  refine .ite_pos hd (Reads.advance.bind fun _ _ => ?_)
  exact (Reads.node _ _).mono (by rintro _ ⟨s, rfl⟩; rfl)

theorem readsBack_blockLocal (s : Span) (n : String) (hd : d.localMark = true) :
    (named s n .blockLocal).ReadsBack d := by
  refine .of_root fun names rest => ?_
  refine Reads.peek.bind fun t ht => .look .dialect ?_
  rw [show t.lexeme = .mark .hash from congrArg Word.lexeme ht]
  refine .ite_pos hd (Reads.advance.bind fun _ _ => (Reads.expectAnyName n _).bind fun u hu => ?_)
  have name : u.nameText = n := by
    unfold Token.nameText
    rw [show u.lexeme = .name from congrArg Word.lexeme hu]
    exact congrArg Word.text hu
  rw [name]
  exact (Reads.node _ _).mono (by rintro _ ⟨s, rfl⟩; rfl)

theorem readsBack_address {s : Span} {text : String} {a : Address} (h : a.IsToken d text) :
    (address s text a).ReadsBack d := by
  refine .of_root fun names rest => ?_
  rw [words, show Word.ofText d text = _ from Word.IsOperand.ofText_eq h]
  refine Reads.peek.bind fun t ht => Reads.dialect.bind fun _ _ => ?_
  have lexeme : t.lexeme = .address a := congrArg Word.lexeme ht
  have text : t.text = text := congrArg Word.text ht
  rw [lexeme, text]
  exact Reads.advance.bind fun _ _ => (Reads.node _ _).mono (by rintro _ ⟨s, rfl⟩; rfl)

/-- The word of a member names it. -/
theorem member_names {m : String} (h : isIdentifier d m = true ∨ IsNumeral d m) :
    isMemberName (Word.member d m).lexeme = true ∧
      ∀ t : Token, t.word = .member d m → t.nameText = m := by
  unfold Word.member
  by_cases identifier : isIdentifier d m = true
  · rw [if_pos identifier]
    refine ⟨rfl, fun t ht => ?_⟩
    rw [Token.nameText, show t.lexeme = .name from congrArg Word.lexeme ht]
    exact congrArg Word.text ht
  · obtain ⟨k, operand⟩ := h.resolve_left identifier
    rw [if_neg identifier, show Word.ofText d m = _ from operand.ofText_eq]
    refine ⟨rfl, fun t ht => ?_⟩
    rw [Token.nameText, show t.lexeme = .integer k from congrArg Word.lexeme ht]
    exact congrArg Word.text ht

theorem readsBack_member {s : Span} {base : Variable} {m : String} (hb : base.ReadsBack d)
    (hm : isIdentifier d m = true ∨ IsNumeral d m) : (member s base m).ReadsBack d := by
  obtain ⟨named, text⟩ := member_names hm
  refine hb.of_access (by rw [words]) fun names levels rest b same => ?_
  refine .look (.sees _) (.look (.lexemeAt 1) (.ite_pos ?_ ?_))
  · exact named
  refine Reads.advance.bind fun _ _ => Reads.advance.bind fun t ht => ?_
  refine (Reads.node _ _).bind ?_
  rintro _ ⟨s', rfl⟩
  exact .pure (by rw [Sum.elim_inr, bare, bare, same, text t ht])

theorem readsBack_element {s : Span} {base : Variable} {is : List Expr} (hb : base.ReadsBack d)
    (some_index : is ≠ []) (items : ∀ x ∈ is, x.IsItem d) : (element s base is).ReadsBack d := by
  refine hb.of_access (by rw [words]) fun names levels rest b same => ?_
  rw [List.cons_append, List.append_assoc, Expr.wordsEach_eq_map]
  refine .look (.sees _) (.look (.lexemeAt 1) (.ite_neg nofun ?_))
  refine .look (.sees _) (.ite_pos rfl (Reads.advance.bind fun opener _ => ?_))
  have indices : Reads d names (commaList (Grammar.expression levels) Expr.span)
      (fun as => as.map Expr.bare = is.map Expr.bare)
      (commaWords (is.map (Expr.words d 0)) ++ .mark .rightBracket :: rest)
      (.mark .rightBracket :: rest) :=
    .commaList some_index (fun x hx => items x hx names levels) (fun _ => Stops.of_none rfl rfl)
      (Stops.of_none rfl rfl) rfl
  refine indices.bind fun is' same' => (Reads.expectClosing rfl _ _).bind fun _ _ => ?_
  refine (Reads.node _ _).bind ?_
  rintro _ ⟨s', rfl⟩
  refine .pure ?_
  rw [Sum.elim_inr, bare, bare, same, Expr.bareAll_eq_map, Expr.bareAll_eq_map, same']

theorem readsBack_deref {s : Span} {base : Variable} (hd : d.objects = true)
    (hb : base.ReadsBack d) : (deref s base).ReadsBack d := by
  refine hb.of_access (by rw [words]) fun names levels rest b same => ?_
  refine .look (.sees _) (.look (.lexemeAt 1) (.ite_neg nofun ?_))
  refine .look (.sees _) (.ite_neg nofun ?_)
  refine .look (.sees _) (.look .dialect (.ite_pos ?_ ?_))
  · rw [hd]
    rfl
  refine Reads.advance.bind fun _ _ => (Reads.node _ _).bind ?_
  rintro _ ⟨s', rfl⟩
  exact .pure (by rw [Sum.elim_inr, bare, bare, same])

/-- A dotted name is read back. -/
theorem IsDotted.readsBack : ∀ {v : Variable}, v.IsDotted d → v.ReadsBack d
  | .named s n .plain, _ => readsBack_named s n
  | .member _ _ _, ⟨hb, hm⟩ => readsBack_member hb.readsBack (.inl hm)

end Variable

/-! ### Arguments -/

namespace Arg

theorem isItem_positional {s : Span} {x : Expr} (hx : x.IsItem d) (opens : Opens (x.words d 0)) :
    (positional s x).IsItem d := by
  intro names levels rest closes
  have value := hx names levels rest closes.stops
  rw [words]
  obtain ⟨w, ws, same, first, second, third⟩ := opens
  rw [same, List.cons_append] at value ⊢
  -- the lexeme after some of the words is one of theirs or closes the argument
  have inner {vs : List Word} (h : ∀ v ∈ vs.head?, isInner v.lexeme = true) :
      isInner (ahead (vs ++ rest) 0) = true := by
    cases vs with
    | nil =>
      show isInner (ahead rest 0) = true
      obtain same | same := closes
      · rw [same]
        rfl
      · rw [same]
        rfl
    | cons v vs => exact h v rfl
  have next : isInner (ahead (w :: (ws ++ rest)) 1) = true := inner second
  refine .look (.sees _) (.look (.sees _) (.ite_neg ?_ ?_))
  · show ¬(w.lexeme.is Mark.comma || w.lexeme.is Mark.rightParen) = true
    rw [not_is_of first rfl, not_is_of first rfl]
    exact Bool.false_ne_true
  refine Reads.peek.bind fun t ht => .look (.lexemeAt 1) (.ite_neg ?_ (.ite_neg ?_ ?_))
  · rw [not_is_of next rfl, Bool.and_false]
    exact Bool.false_ne_true
  · rw [not_is_of next rfl, Bool.and_false]
    exact Bool.false_ne_true
  refine .look (.lexemeAt 2) (.ite_neg ?_ ?_)
  · intro negated
    rw [Bool.and_eq_true, Bool.and_eq_true, show t.lexeme = w.lexeme from congrArg Word.lexeme ht] at negated
    obtain ⟨⟨negation, -⟩, arrow⟩ := negated
    have negation : w.lexeme = .keyword .NOT := by
      cases hl : w.lexeme with
      | keyword k =>
        rw [hl] at negation
        exact congrArg _ (eq_of_beq negation)
      | _ =>
        rw [hl] at negation
        cases negation
    obtain ⟨v, vs, rfl, later⟩ := third negation
    have after : isInner (ahead (w :: (v :: vs ++ rest)) 2) = true := inner later
    rw [not_is_of after rfl] at arrow
    cases arrow
  refine value.bind fun x' same => (Reads.node _ _).mono ?_
  rintro _ ⟨s, rfl⟩
  rw [bare, bare, same]

/-- A place that is left empty is read where a comma or the end of the arguments follows. -/
theorem isItem_inferred (s : Span) (hd : d.inferredArguments = true) :
    (inferred s).IsItem d := by
  intro names levels rest closes
  refine .look (.sees _) (.look (.sees _) (.ite_pos ?_ (.look .dialect (.ite_pos hd ?_))))
  · obtain same | same := closes
    · rw [words, List.nil_append, same]
      rfl
    · rw [words, List.nil_append, same]
      rfl
  refine (Reads.peekAt 0).bind fun t _ => (Reads.node _ _).mono ?_
  rintro _ ⟨s, rfl⟩
  rw [bare, bare]

theorem isItem_named {s : Span} {n : String} {x : Expr} (hx : x.IsItem d) : (named s n x).IsItem d := by
  intro names levels rest closes
  have value := hx names levels rest closes.stops
  refine .look (.sees _) (.look (.sees _) (.ite_neg nofun ?_))
  refine Reads.peek.bind fun t ht => .look (.lexemeAt 1) ?_
  rw [show t.lexeme = .name from congrArg Word.lexeme ht,
    show t.text = n from congrArg Word.text ht]
  refine .ite_pos rfl (Reads.advance.bind fun _ _ => Reads.advance.bind fun _ _ => ?_)
  refine value.bind fun x' same => (Reads.node _ _).mono ?_
  rintro _ ⟨s, rfl⟩
  rw [bare, bare, same]

theorem isItem_output {s : Span} {n : String} {v : Variable} {negated : Bool}
    (hv : v.ReadsBack d) : (output s n v negated).IsItem d := by
  intro names levels rest closes
  have target : Reads d names (variableWith (Grammar.expression levels)) (·.bare = v.bare)
      (v.words d ++ rest) rest := hv.whole (not_isAccess_of_not_goesOn closes.stops.apart)
  rw [words]
  -- With a `NOT` in front three tokens are looked at, without it two.
  cases negated with
  | false =>
    refine .look (.sees _) (.look (.sees _) (.ite_neg nofun ?_))
    refine Reads.peek.bind fun t ht => .look (.lexemeAt 1) ?_
    rw [show t.lexeme = .name from congrArg Word.lexeme ht,
      show t.text = n from congrArg Word.text ht]
    refine .ite_neg nofun (.ite_pos rfl ?_)
    refine Reads.advance.bind fun _ _ => Reads.advance.bind fun _ _ => ?_
    refine target.bind fun v' same => (Reads.node _ _).mono ?_
    rintro _ ⟨s, rfl⟩
    rw [bare, bare, same]
  | true =>
    refine .look (.sees _) (.look (.sees _) (.ite_neg nofun ?_))
    refine Reads.peek.bind fun t ht => .look (.lexemeAt 1) ?_
    rw [show t.lexeme = .keyword .NOT from congrArg Word.lexeme ht]
    refine .ite_neg nofun (.ite_neg nofun (.look (.lexemeAt 2) (.ite_pos rfl ?_)))
    refine Reads.advance.bind fun _ _ => Reads.advance.bind fun name hname => ?_
    rw [show name.text = n from congrArg Word.text hname]
    refine Reads.advance.bind fun _ _ => ?_
    refine target.bind fun v' same => (Reads.node _ _).mono ?_
    rintro _ ⟨s, rfl⟩
    rw [bare, bare, same]

end Arg

/-- Arguments in parentheses are read. -/
theorem callArgs_reads {args : List Arg} (items : ∀ a ∈ args, a.IsItem d)
    (opens : ∀ a ∈ args, a.Begins d) (visible : Arg.Visible args)
    (names : List (List String)) (levels : Nat) (rest : List Word) :
    Reads d names (callArgs (Grammar.expression levels))
      (fun as => as.map Arg.bare = args.map Arg.bare)
      (parenWords (commaWords (Arg.wordsEach d args)) ++ rest) rest := by
  rw [Arg.wordsEach_eq_map, parenWords, List.cons_append, List.append_assoc]
  refine (Reads.expect rfl).bind fun opener _ => ?_
  cases args with
  | nil => exact .look (.accept rfl) (.ite_pos rfl (.pure rfl))
  | cons a as =>
    have closed (n : Nat) : Reads d names
        (listed (return true) (argumentOrGap (Grammar.expression levels)) Arg.span n 0)
        (fun as' => as'.map Arg.bare = (a :: as).map Arg.bare)
        (commaWords ((a :: as).map (Arg.words d)) ++ .mark .rightParen :: rest)
        (.mark .rightParen :: rest) :=
      .listed (List.cons_ne_nil a as) (fun x hx => items x hx names levels) (fun _ => .inl rfl)
        (.inr rfl) rfl n 0
    have other : (ahead (commaWords ((a :: as).map (Arg.words d)) ++
        ([Word.mark .rightParen] ++ rest)) 0).is Mark.rightParen = false := by
      rw [List.map_cons]
      obtain ⟨s, rfl⟩ | ⟨w, ws, same, first⟩ := opens a List.mem_cons_self
      · -- a gap is not the only argument, so a comma follows it
        cases as with
        | nil => exact absurd rfl (visible s)
        | cons b bs =>
          rw [Arg.words]
          rfl
      · rw [same]
        exact not_is_of first rfl
    refine .look (.not_accept other) (.ite_neg Bool.false_ne_true ?_)
    refine Reads.passes.bind fun n _ => (closed n).bind fun as' same' => ?_
    exact (Reads.expectClosing rfl _ _).bind fun _ _ => .pure same'

end Plc

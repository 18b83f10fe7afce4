/-
Expressions are read back.

The printer writes parentheses where the precedence of operators asks for them.  Where it
leaves them out, the operators that follow an operand are loose enough for the reader
to group the words as the tree does.

* `Expr.grip` — how tight an operator must be to be taken into the words before it;
* `Expr.ReadsBack` — the words are read as an operand, and as the first of several;
* `Expr.readsBack`, `Variable.readsBack`, `Arg.isItem` — the words of printable trees are.
-/
import Plc.Proofs.RoundTrip.Operand

namespace Plc

open Grammar Lexed

variable {d : Dialect}

/-! ### Operators on the right -/

theorem BinaryOp.precedence_lt_tightest (op : BinaryOp) : op.precedence < tightest := by
  cases op <;> decide

namespace Expr

/-- An operator at least as tight as this would be taken into the words of the expression. -/
def grip (outer : Nat) : Expr → Nat
  | .unary _ .not _ => BinaryOp.eq.precedence
  | .binary _ op _ _ => if op.precedence < outer then tightest else op.rightPrecedence
  | _ => tightest

/-- The words of the expression are those of a single operand. -/
def IsSingle (outer : Nat) : Expr → Prop
  | .binary _ op _ _ => op.precedence < outer
  | _ => True

theorem le_grip {outer : Nat} {e : Expr} (bound : outer ≤ tightest)
    (negation : e.isNot = true → outer ≤ BinaryOp.eq.precedence) : outer ≤ e.grip outer := by
  cases e with
  | unary _ op x =>
    cases op with
    | not => exact negation rfl
    | neg => exact bound
  | binary _ op l r =>
    rw [grip]
    split
    · exact bound
    · next tight =>
      have least : op.precedence ≤ op.rightPrecedence := by cases op <;> decide
      omega
  | _ => exact bound

/-- An operator is not taken into its left operand. -/
theorem precedence_lt_grip {op : BinaryOp} {e : Expr} (h : e.isNot = true → op.isLogical = true) :
    op.precedence < e.grip op.leftPrecedence := by
  have small := op.precedence_lt_tightest
  cases e with
  | unary _ sign x =>
    cases sign with
    | not =>
      have logical := h rfl
      rw [grip]
      revert logical
      cases op <;> decide
    | neg => exact small
  | binary _ op' l r =>
    rw [grip]
    split
    · exact small
    · next tight =>
      revert tight
      cases op <;> cases op' <;> decide
  | _ => exact small

/-- The expression as the printer puts it beside an operator. -/
def beside (op : BinaryOp) (x : Expr) : Expr :=
  if x.isNot && !op.isLogical then .paren .zero x else x

theorem bare_beside (op : BinaryOp) (x : Expr) : (x.beside op).bare = x.bare := by
  unfold beside
  split
  · rw [bare]
  · rfl

theorem words_beside (op : BinaryOp) (x : Expr) (outer : Nat) : (x.beside op).words d outer =
    if x.isNot && !op.isLogical then parenWords (x.words d 0) else x.words d outer := by
  unfold beside
  split
  · rw [words]
  · rfl

theorem isLogical_of_isNot_beside {op : BinaryOp} {x : Expr} (h : (x.beside op).isNot = true) :
    op.isLogical = true := by
  unfold beside at h
  split at h
  · cases h
  · next plain =>
    rw [h] at plain
    simpa using plain

/-- The words of two operands and their operator. -/
def sides (d : Dialect) (op : BinaryOp) (l r : Expr) : List Word :=
  (l.beside op).words d op.leftPrecedence ++ op.word :: (r.beside op).words d op.rightPrecedence

theorem words_binary (outer : Nat) (s : Span) (op : BinaryOp) (l r : Expr) :
    (binary s op l r).words d outer =
      if op.precedence < outer then parenWords (sides d op l r) else sides d op l r := by
  rw [words, sides, words_beside, words_beside]

theorem words_zero (e : Expr) : e.words d 0 = e.words d 1 := by
  cases e with
  | binary s op l r =>
    have least : ¬op.precedence < 1 := by cases op <;> decide
    rw [words_binary, words_binary, if_neg least, if_neg (by omega)]
  | unary s op x =>
    cases op with
    | _ => rw [words, words]
  | repeated s n x =>
    cases x with
    | _ => rw [words, words]
  | _ => rw [words, words]

end Expr

namespace Grammar

/-- The right operand of an operator. -/
def rightOperand (levels tighter : Nat) (op : BinaryOp) : Rule Expr :=
  if op = .power then powerOperand levels
  else climb (unary levels) (powerOperand levels) tighter (op.precedence + 1)

/-- The operators after an operand, when some passes are left. -/
def operations (levels tighter least n : Nat) (e : Expr) : Rule Expr :=
  repeating (operatorFrom least) (operation (rightOperand levels tighter)) n e

end Grammar

/-- The words of the expression are read as the expression, and then more operators may follow; those
of a single operand are read as an operand. -/
structure Expr.ReadsBack (d : Dialect) (e : Expr) : Prop where
  climb : ∀ names levels least tighter outer rest ws' (Q : Expr → Prop), least ≤ 7 →
    7 ≤ tighter + least → least ≤ outer → Stops (e.grip outer) rest →
    (∀ n e', e'.bare = e.bare →
      Reads d names (operations levels tighter least n e') Q rest ws') →
    Reads d names (Grammar.climb (Grammar.unary levels) (powerOperand levels) (tighter + 1) least)
      Q (e.words d outer ++ rest) ws'
  unary : ∀ names levels outer rest, e.IsSingle outer → Stops (e.grip outer) rest →
    Reads d names (Grammar.unary levels) (·.bare = e.bare) (e.words d outer ++ rest) rest

namespace Expr

variable {names : List (List String)} {levels outer : Nat} {rest : List Word}
  {e x l r : Expr}

/-- An expression whose words are always those of a single operand. -/
theorem ReadsBack.of_unary (h : ∀ names levels outer rest, Stops (e.grip outer) rest →
    Reads d names (Grammar.unary levels) (·.bare = e.bare) (e.words d outer ++ rest) rest) : e.ReadsBack d where
  climb names levels least tighter outer rest ws' Q _ _ _ stops more := by
    rw [Grammar.climb]
    exact (h names levels outer rest stops).bind fun first same =>
      Reads.passes.bind fun n _ => more n first same
  unary names levels outer rest _ stops := h names levels outer rest stops

/-- No operator follows that is tight enough. -/
theorem operations_done {P : Expr → Prop} {least tighter n : Nat} (h : P e)
    (ends : Stops least rest) :
    Reads d names (operations levels tighter least n e) P rest rest := by
  rw [operations]
  refine Reads.repeating_done (b := e) ?_ h n
  refine Reads.look .lexeme ?_
  split
  · next op known => exact .pure (if_neg (Nat.not_le.2 (ends.looser op known)))
  · exact .pure rfl

/-- The whole expression is read where no operator follows that is tight enough. -/
theorem ReadsBack.whole (least tighter : Nat) (h : e.ReadsBack d) (hleast : least ≤ 7) (fuel : 7 ≤ tighter + least)
    (loose : least ≤ outer) (stops : Stops (e.grip outer) rest) (ends : Stops least rest) :
    Reads d names (Grammar.climb (Grammar.unary levels) (powerOperand levels) (tighter + 1) least)
      (·.bare = e.bare) (e.words d outer ++ rest) rest := by
  exact h.climb _ _ _ _ _ _ _ _ hleast fuel loose stops fun n e' same => operations_done same ends

theorem ReadsBack.isItem (h : e.ReadsBack d) : e.IsItem d := by
  intro names levels rest stops
  rw [words_zero]
  have grip : 1 ≤ e.grip 1 := le_grip (by decide) fun _ => by decide
  exact h.whole 1 6 (by decide) (by decide) (Nat.le_refl 1) (stops.mono grip) stops

/-! ### Single operands -/

/-- An operand without a sign is read with any number of constructs open. -/
theorem unary_reads {P : Expr → Prop} {ws ws' : List Word}
    (sign : ∀ l ∈ [Lexeme.keyword .NOT, .mark .minus, .mark .plus], ahead ws 0 ≠ l)
    (h : ∀ levels, Reads d names (primary (Grammar.expression levels)) P ws ws')
    (levels : Nat) : Reads d names (Grammar.unary levels) P ws ws' := by
  cases levels with
  | zero => exact .tooDeep
  | succ levels =>
    rw [Grammar.unary]
    refine .nested ((Reads.peekAt 0).bind fun t ht => ?_)
    rw [ht]
    split
    · next same => exact absurd same (sign _ (by simp))
    · next same => exact absurd same (sign _ (by simp))
    · next same => exact absurd same (sign _ (by simp))
    · exact h levels

/-- The lexeme is not that of a constant. -/
theorem not_constant {t : Token} (h : opensVariable t.lexeme = true ∨ t.lexeme = .mark .leftParen) :
    plainLiteral? t = none ∧ timeValue? t = none := by
  unfold plainLiteral? timeValue?
  obtain first | same := h
  · obtain same | ⟨n, same⟩ | same | ⟨a, same⟩ := opensVariable_cases first
    all_goals
      rw [same]
      exact ⟨rfl, rfl⟩
  · rw [same]
    exact ⟨rfl, rfl⟩

/-- Words in parentheses are an operand. -/
theorem parens_read {b : Expr} {ws : List Word} (inner : ∀ levels,
      Reads d names (Grammar.expression levels) (·.bare = b)
        (ws ++ .mark .rightParen :: rest) (.mark .rightParen :: rest)) (levels : Nat) :
    Reads d names (Grammar.unary levels) (·.bare = b) (parenWords ws ++ rest) rest := by
  refine unary_reads (by simp [parenWords, ahead, Word.mark]) (fun levels => ?_) levels
  rw [parenWords, List.cons_append, List.append_assoc]
  refine Reads.peek.bind fun t ht => ?_
  have lexeme : t.lexeme = .mark .leftParen := congrArg Word.lexeme ht
  obtain ⟨plain, time⟩ := not_constant (.inr lexeme)
  rw [plain, time]
  refine .ite_pos (by rw [lexeme]; rfl) (Reads.advance.bind fun _ _ => (inner levels).bind fun x hx => ?_)
  refine (Reads.expectClosing rfl _ _).bind fun _ _ => (Reads.node _ _).mono ?_
  rintro _ ⟨s, rfl⟩
  rw [bare, hx]

theorem ReadsBack.paren {s : Span} (h : x.ReadsBack d) : (paren s x).ReadsBack d := by
  refine .of_unary fun names levels outer rest _ => ?_
  rw [words, bare]
  exact parens_read (fun levels => h.isItem names levels _ (Stops.of_none rfl rfl)) levels

/-- A literal that is its own text is read as itself. -/
theorem readsBack_literal {s : Span} {l : Literal} (h : l.IsToken d) :
    (literal s l).ReadsBack d := by
  obtain ⟨w, operand, written, means⟩ := h
  have own : Word.ofText d l.text = w := by rw [← written, operand.ofText_eq]
  refine .of_unary fun names levels outer rest _ => ?_
  rw [words, own]
  have constant := operand.operand
  refine unary_reads ?_ (fun levels => ?_) levels
  · intro sign listed same
    have same : w.lexeme = sign := same
    rw [same] at constant
    simp only [List.mem_cons, List.not_mem_nil, or_false] at listed
    obtain rfl | rfl | rfl := listed
    all_goals cases constant
  have built (start : Span) (l : Literal) : Reads d names
      (node start fun s => Expr.literal s l) (·.bare = .literal .zero l) rest rest :=
    (Reads.node _ _).mono (by rintro _ ⟨s, rfl⟩; rfl)
  refine Reads.peek.bind fun t ht => ?_
  -- A literal of its own text is a plain one, or a time or a date.
  obtain plain | ⟨other, v, value, rfl⟩ := means t ht
  · rw [plain]
    refine Reads.advance.bind fun _ _ => ?_
    split
    · exact (Reads.checkLimit _ _ _).bind fun _ _ => built _ _
    · exact built _ _
  · rw [other, value]
    exact Reads.advance.bind fun _ _ => built _ _

/-- A name that no `#` follows, a quoted or local name or an address begins a variable or a call. -/
theorem variableOrCall_reads {P : Expr → Prop} {w : Word} {ws ws' : List Word}
    (first : opensVariable w.lexeme = true)
    (untyped : w.lexeme.isName = true → (ahead ws 0).is Mark.hash = false)
    (h : ∀ levels, Reads d names (variableOrCall (Grammar.expression levels)) P (w :: ws) ws')
    (levels : Nat) : Reads d names (Grammar.unary levels) P (w :: ws) ws' := by
  refine unary_reads ?_ (fun levels => ?_) levels
  -- no sign comes first
  · intro sign listed same
    have same : w.lexeme = sign := same
    rw [same] at first
    simp only [List.mem_cons, List.not_mem_nil, or_false] at listed
    obtain rfl | rfl | rfl := listed
    all_goals cases first
  refine Reads.peek.bind fun t ht => ?_
  have lexeme : t.lexeme = w.lexeme := congrArg Word.lexeme ht
  obtain ⟨plain, time⟩ := not_constant (.inl (lexeme ▸ first))
  rw [plain, time, lexeme]
  -- Of what a variable begins with, only a name could begin a typed literal, and no `#` follows it.
  have known : w.lexeme.is Mark.leftParen = false ∧ beginsVariable w.lexeme = true ∧
      (beginsTyped w.lexeme = true → w.lexeme.isName = true) := by
    obtain same | ⟨n, same⟩ | same | ⟨a, same⟩ := opensVariable_cases first
    all_goals rw [same]
    · exact ⟨rfl, rfl, id⟩
    all_goals exact ⟨rfl, rfl, fun typed => by cases typed⟩
  refine .ite_neg (by rw [known.1]; exact Bool.false_ne_true) ?_
  refine .look (.lexemeAt 1) (.look (.lexemeAt 2) (.ite_neg ?_ (.ite_pos known.2.1 (h levels))))
  show ¬(beginsTyped w.lexeme && (ahead ws 0).is Mark.hash && _) = true
  intro typed
  rw [Bool.and_eq_true, Bool.and_eq_true] at typed
  rw [untyped (known.2.2 typed.1.1)] at typed
  cases typed.1.2

theorem not_hash_of_opens {ws : List Word}
    (second : ∀ v ∈ ws.head?, isAccess v.lexeme = true) (ends : goesOn (ahead rest 0) = false) :
    (ahead (ws ++ rest) 0).is Mark.hash = false := by
  cases ws with
  | nil =>
    show (ahead rest 0).is Mark.hash = false
    cases hl : ahead rest 0 with
    | mark m =>
      rw [hl] at ends
      refine beq_eq_false_iff_ne.2 ?_
      rintro rfl
      cases ends
    | _ => rfl
  | cons v vs => exact not_is_of (second v rfl) rfl

theorem readsBack_variable {v : Variable} (h : v.Printable d) (hv : v.ReadsBack d) :
    (Expr.variable v).ReadsBack d := by
  refine .of_unary fun names levels outer rest stops => ?_
  rw [words]
  have apart := stops.apart
  have whole (levels : Nat) : Reads d names (variableWith (Grammar.expression levels))
      (·.bare = v.bare) (v.words d ++ rest) rest := hv.whole (not_isAccess_of_not_goesOn apart)
  obtain ⟨w, ws, same, first, -, untyped⟩ := v.opens h
  rw [same, List.cons_append] at whole ⊢
  refine variableOrCall_reads first (fun name => not_hash_of_opens (untyped name) apart)
    (fun levels => ?_) levels
  refine (whole levels).bind fun v' hv' => .look (.sees _) (.ite_neg ?_ (.pure ?_))
  · cases hl : ahead rest 0 with
    | mark m =>
      rw [hl] at apart
      intro paren
      cases eq_of_beq paren
      cases apart
    | _ => nofun
  · rw [bare, bare, hv']

/-- The dotted name before some arguments is read. -/
theorem path_reads {path : String} (h : IsDotted d path) : Reads d names
    (variableWith (Grammar.expression levels))
    (fun v => v.path? = some path ∧ v.root? = (segments path).head?)
    (pathWords d path ++ .mark .leftParen :: rest) (.mark .leftParen :: rest) := by
  obtain ⟨n, ns, same, callee, -, named⟩ := eq_members d path
  rw [IsDotted, same] at h
  have base : (Variable.named .zero n .plain).IsDotted d := h n List.mem_cons_self
  have back := (Variable.members_isDotted base fun m hm => h m (List.mem_cons_of_mem _ hm)).readsBack
  rw [← callee, same]
  refine (back.whole rfl).mono fun v hv => ⟨?_, ?_⟩
  · rw [← Variable.path?_bare, hv, Variable.path?_bare, named]
  · rw [← Variable.root?_bare, hv, Variable.root?_bare, Variable.members_root?]
    rfl

theorem readsBack_call {s : Span} {path : String} {args : List Arg} (hpath : IsDotted d path)
    (items : ∀ a ∈ args, a.IsItem d) (opens : ∀ a ∈ args, a.Begins d) (visible : Arg.Visible args) :
    (call s path args).ReadsBack d := by
  refine .of_unary fun names levels outer rest _ => ?_
  rw [words, List.append_assoc]
  have callee (levels : Nat) : Reads d names (variableWith (Grammar.expression levels)) _
      (pathWords d path ++ (parenWords (commaWords (Arg.wordsEach d args)) ++ rest))
      (parenWords (commaWords (Arg.wordsEach d args)) ++ rest) := path_reads hpath
  obtain ⟨n, ns, same, -⟩ := eq_members d path
  rw [pathWords, same] at callee ⊢
  refine variableOrCall_reads (w := .name n) rfl (fun _ => ?_) (fun levels => ?_) levels
  · cases ns with
    | nil => rfl
    | cons m ms => rfl
  refine (callee levels).bind fun v hv => .look (.sees _) (.ite_pos rfl ?_)
  rw [hv.1]
  refine (callArgs_reads items opens visible names levels rest).bind fun as has =>
    (Reads.node _ _).mono ?_
  rintro _ ⟨s, rfl⟩
  rw [bare, bare, Arg.bareAll_eq_map, Arg.bareAll_eq_map, has]

/-! ### Signs -/

theorem ReadsBack.not {s : Span} (h : x.ReadsBack d) : (Expr.unary s .not x).ReadsBack d := by
  refine .of_unary fun names levels outer rest stops => ?_
  rw [words]
  cases levels with
  | zero => exact .tooDeep
  | succ levels =>
    rw [Grammar.unary]
    refine .nested (Reads.peek.bind fun t ht => ?_)
    rw [show t.lexeme = .keyword .NOT from congrArg Word.lexeme ht]
    have grip : BinaryOp.eq.precedence ≤ x.grip BinaryOp.eq.precedence :=
      le_grip (by decide) fun _ => Nat.le_refl _
    have operand : Reads d names
        (binaryFrom (Grammar.unary levels) (powerOperand levels) BinaryOp.eq.precedence)
        (·.bare = x.bare) (x.words d BinaryOp.eq.precedence ++ rest) rest :=
      h.whole BinaryOp.eq.precedence 3 (by decide) (by decide) (Nat.le_refl _)
        (Stops.mono stops grip) stops
    refine Reads.advance.bind fun _ _ => operand.bind fun x' same => (Reads.node _ _).mono ?_
    rintro _ ⟨s, rfl⟩
    rw [bare, bare, same]

theorem ReadsBack.neg {s : Span} (h : x.ReadsBack d) : (Expr.unary s .neg x).ReadsBack d := by
  refine .of_unary fun names levels outer rest stops => ?_
  rw [words]
  cases levels with
  | zero => exact .tooDeep
  | succ levels =>
    rw [Grammar.unary]
    refine .nested (Reads.peek.bind fun t ht => ?_)
    rw [show t.lexeme = .mark .minus from congrArg Word.lexeme ht]
    refine Reads.advance.bind fun _ _ => ?_
    have operand : Reads d names (Grammar.unary levels) (·.bare = x.bare)
        ((if x.isUnary || (x.render tightest).startsWith "-" then parenWords (x.words d tightest)
          else x.words d tightest) ++ rest) rest := by
      -- The printer puts parentheses around an operand that begins with a sign itself.
      split
      · refine parens_read (fun levels => ?_) levels
        exact h.whole 1 6 (by decide) (by decide) (by decide) (Stops.of_none rfl rfl) (Stops.of_none rfl rfl)
      · next plain =>
        have single : x.IsSingle tightest := by
          cases x with
          | binary _ op _ _ => exact op.precedence_lt_tightest
          | _ => trivial
        have grip : tightest ≤ x.grip tightest := by
          refine le_grip (Nat.le_refl _) fun negation => ?_
          cases x with
          | unary => exact absurd (by rfl) plain
          | _ => cases negation
        exact h.unary names levels tightest rest single (Stops.mono stops grip)
    refine operand.bind fun x' same => (Reads.node _ _).mono ?_
    rintro _ ⟨s, rfl⟩
    rw [bare, bare, same]

/-! ### Operators -/

theorem ReadsBack.beside {op : BinaryOp} (h : x.ReadsBack d) : (x.beside op).ReadsBack d := by
  unfold Expr.beside
  split
  · exact h.paren
  · exact h

/-- An operator reads its right operand and no more. -/
theorem rightOperand_reads {op : BinaryOp} {tighter : Nat} (h : r.ReadsBack d)
    (fuel : 7 ≤ tighter + op.precedence) (stops : Stops op.rightPrecedence rest) :
    Reads d names (rightOperand levels tighter op) (·.bare = r.bare)
      ((r.beside op).words d op.rightPrecedence ++ rest) rest := by
  have grip : op.rightPrecedence ≤ (r.beside op).grip op.rightPrecedence := by
    refine le_grip (by cases op <;> decide) fun negation => ?_
    have logical := isLogical_of_isNot_beside negation
    revert logical
    cases op <;> decide
  have stops' := stops.mono grip
  rw [rightOperand, ← bare_beside op r]
  -- A power is read to the right with the rule for its own operands; all others are read one rung
  -- tighter.
  by_cases power : op = .power
  · subst power
    rw [if_pos rfl]
    cases levels with
    | zero => exact .tooDeep
    | succ levels =>
      exact .nested (h.beside.whole 7 0 (Nat.le_refl 7) (by decide) (Nat.le_refl 7) stops' stops)
  · rw [if_neg power]
    have small : op.precedence ≤ 6 := by
      revert power
      cases op <;> decide
    have right : op.rightPrecedence = op.precedence + 1 := if_neg power
    obtain ⟨fewer, rfl⟩ : ∃ fewer, tighter = fewer + 1 := ⟨tighter - 1, by omega⟩
    rw [right] at stops stops' ⊢
    exact h.beside.whole (op.precedence + 1) fewer (by omega) (by omega) (Nat.le_refl _) stops' stops

/-- The left operand is read first; the operator after it is loose enough to be left to the loop
that reads both operands. -/
theorem sides_read {op : BinaryOp} (least tighter : Nat) (hl : l.ReadsBack d)
    (hr : r.ReadsBack d) {ws' : List Word} {Q : Expr → Prop} (hleast : least ≤ 7) (fuel : 7 ≤ tighter + least)
    (loose : least ≤ op.precedence) (stops : Stops op.rightPrecedence rest)
    (more : ∀ n e', e'.bare = .binary .zero op l.bare r.bare →
      Reads d names (operations levels tighter least n e') Q rest ws') :
    Reads d names (Grammar.climb (Grammar.unary levels) (powerOperand levels) (tighter + 1) least)
      Q (sides d op l r ++ rest) ws' := by
  rw [sides, List.append_assoc]
  have left : least ≤ op.leftPrecedence := Nat.le_trans loose (by cases op <;> decide)
  -- The left operand is read first. Its words end before the operator, which is not its own.
  refine hl.beside.climb _ _ _ _ _ _ _ _ hleast fuel left ?_ fun n l' same => ?_
  · refine ⟨by cases op <;> rfl, fun op' known => ?_⟩
    cases (BinaryOp.ofLexeme?_lexeme op).symm.trans known
    exact precedence_lt_grip isLogical_of_isNot_beside
  rw [operations]
  -- One pass reads the operator and the right operand.
  refine Reads.repeating_more (c := op) ?_ ?_ more n
  · refine Reads.look .lexeme ?_
    split
    · next op' known =>
      cases (BinaryOp.ofLexeme?_lexeme op).symm.trans known
      exact .pure (if_pos loose)
    · next known => cases (BinaryOp.ofLexeme?_lexeme op).symm.trans known
  · refine Reads.advance.bind fun _ _ => ?_
    refine (rightOperand_reads hr (by omega) stops).bind fun r' same' => (Reads.node _ _).bind ?_
    rintro _ ⟨s, rfl⟩
    exact .pure (by rw [Sum.elim_inr, bare, same, bare_beside, same'])

theorem ReadsBack.binary {s : Span} {op : BinaryOp} (hl : l.ReadsBack d) (hr : r.ReadsBack d) :
    (binary s op l r).ReadsBack d := by
  -- Between parentheses the operation is read from the loosest level.
  have bracketed (names : List (List String)) (levels : Nat) (rest : List Word) :
      Reads d names (Grammar.unary levels) (·.bare = (Expr.binary s op l r).bare)
        (parenWords (sides d op l r) ++ rest) rest := by
    refine parens_read (fun levels => ?_) levels
    refine sides_read 1 6 hl hr (by decide) (by decide) ?_ (Stops.of_none rfl rfl) fun n e' same => ?_
    · cases op <;> decide
    · exact operations_done same (Stops.of_none rfl rfl)
  constructor
  · intro names levels least tighter outer rest ws' Q hleast fuel loose stops more
    rw [words_binary]
    rw [grip] at stops
    split
    · rw [Grammar.climb]
      exact (bracketed names levels rest).bind fun first same =>
        Reads.passes.bind fun n _ => more n first same
    · next tight =>
      rw [if_neg tight] at stops
      exact sides_read least tighter hl hr hleast fuel (by omega) stops more
  · intro names levels outer rest single _
    rw [words_binary, if_pos (show op.precedence < outer from single)]
    exact bracketed names levels rest

end Expr

/-! ### Printable trees -/

mutual

/-- A printable variable is read back. -/
theorem Variable.readsBack : ∀ v : Variable, v.Printable d → v.ReadsBack d
  | .named s n .plain, _ => Variable.readsBack_named s n
  | .named s n .quoted, ⟨hd, _⟩ => Variable.readsBack_quoted s n hd
  | .named s n .blockLocal, ⟨hd, _⟩ => Variable.readsBack_blockLocal s n hd
  | .address _ _ _, h => Variable.readsBack_address h
  | .member _ b _, ⟨hb, hm⟩ =>
    Variable.readsBack_member (Variable.readsBack b hb) (hm.imp_right And.right)
  | .element _ b is, ⟨hb, some_index, his⟩ =>
    Variable.readsBack_element (Variable.readsBack b hb) some_index (Expr.isItemAll is his)
  | .deref _ b, ⟨hd, hb⟩ => Variable.readsBack_deref hd (Variable.readsBack b hb)

/-- A printable expression is read back. -/
theorem Expr.readsBack : ∀ e : Expr, e.Printable d → e.ReadsBack d
  | .literal _ _, h => Expr.readsBack_literal h
  | .variable v, h => Expr.readsBack_variable h (Variable.readsBack v h)
  | .unary _ .not x, h => (Expr.readsBack x h).not
  | .unary _ .neg x, h => (Expr.readsBack x h).neg
  | .binary _ _ l r, ⟨hl, hr⟩ => (Expr.readsBack l hl).binary (Expr.readsBack r hr)
  | .paren _ x, h => (Expr.readsBack x h).paren
  | .call _ _ args, ⟨hpath, visible, hargs⟩ =>
    Expr.readsBack_call hpath (Arg.isItemAll args hargs) (Arg.opensAll args hargs) visible

/-- A printable argument is read back. -/
theorem Arg.isItem : ∀ a : Arg, a.Printable d → a.IsItem d
  | .positional _ x, h => Arg.isItem_positional (Expr.readsBack x h).isItem (x.opens 0 h)
  | .named _ _ x, ⟨_, hx⟩ => Arg.isItem_named (Expr.readsBack x hx).isItem
  | .output _ _ v _, ⟨_, hv⟩ => Arg.isItem_output (Variable.readsBack v hv)
  | .inferred s, h => Arg.isItem_inferred s h

/-- Each expression of a list. -/
theorem Expr.isItemAll : ∀ xs : List Expr, Expr.PrintableAll d xs → ∀ x ∈ xs, x.IsItem d
  | [], _ => nofun
  | x :: xs, ⟨hx, hxs⟩ =>
    List.forall_mem_cons.2 ⟨(Expr.readsBack x hx).isItem, Expr.isItemAll xs hxs⟩

/-- Each argument of a list. -/
theorem Arg.isItemAll : ∀ xs : List Arg, Arg.PrintableAll d xs → ∀ x ∈ xs, x.IsItem d
  | [], _ => nofun
  | x :: xs, ⟨hx, hxs⟩ => List.forall_mem_cons.2 ⟨Arg.isItem x hx, Arg.isItemAll xs hxs⟩

end

end Plc

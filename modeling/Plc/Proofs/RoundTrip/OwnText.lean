/-
Literals and addresses that are what their own text stands for.

If an expression that is read from a text is a literal whose text is that text, the
text is one token, and the token means the literal.

* `Token.Means` — a token stands for a literal;
* `Literal.IsOwnText.means`, `Address.IsOwnText.lexeme_eq` — what the text is read as;
* `Word.stands_literal`, `Word.stands_address` — so it stands where layout follows.
-/
import Plc.Proofs.Grammar.Run
import Plc.Proofs.RoundTrip.Tree

namespace Plc

open Grammar

/-- The token stands for the literal. -/
def Token.Means (t : Token) (l : Literal) : Prop :=
  plainLiteral? t = some l ∨
    plainLiteral? t = none ∧ ∃ v, timeValue? t = some (.ok v) ∧ l = ⟨v, t.text, none⟩

/-- An address was written by one of the tokens. -/
def Variable.TakenFrom (ts : List Token) : Variable → Prop
  | .address _ text a => ∃ t ∈ ts, t.lexeme = .address a ∧ t.text = text
  | _ => True

/-- A literal without a type, or an address, was written by one of the tokens. -/
def Expr.TakenFrom (ts : List Token) : Expr → Prop
  | .literal _ l => l.typeName = none → ∃ t ∈ ts, t.Means l
  | .variable v => v.TakenFrom ts
  | _ => True

theorem Variable.TakenFrom.mono {ts us : List Token} {v : Variable} (h : v.TakenFrom ts)
    (hs : ts ⊆ us) : v.TakenFrom us := by
  cases v with
  | address =>
    obtain ⟨t, ht, rest⟩ := h
    exact ⟨t, hs ht, rest⟩
  | _ => trivial

theorem Expr.TakenFrom.mono {ts us : List Token} {e : Expr} (h : e.TakenFrom ts)
    (hs : ts ⊆ us) : e.TakenFrom us := by
  cases e with
  | literal _ l =>
    intro untyped
    obtain ⟨t, ht, rest⟩ := h untyped
    exact ⟨t, hs ht, rest⟩
  | «variable» v => exact Variable.TakenFrom.mono h hs
  | _ => trivial

theorem Expr.TakenFrom.withSpan {ts : List Token} {e : Expr} (h : e.TakenFrom ts) (s : Span) :
    (e.withSpan s).TakenFrom ts := by
  cases e with
  | «variable» v =>
    cases v with
    | _ => exact h
  | _ => exact h

namespace Grammar

variable {α β : Type}

/-! ### Results of rules -/

/-- Whatever the rule gives has the property. -/
def Gives (r : Rule α) (P : α → Prop) : Prop :=
  ∀ s c a c', r s c = .ok a c' → P a

namespace Gives

theorem apply {r : Rule α} {P : α → Prop} {s : Setting} {c c' : Cursor} {a : α}
    (hrun : r s c = .ok a c') (h : Gives r P) : P a :=
  h s c a c' hrun

theorem bind {r : Rule α} {f : α → Rule β} {P : β → Prop} (h : ∀ a, Gives (f a) P) :
    Gives (r >>= f) P := by
  intro s c b c' hrun
  obtain ⟨a, c₁, -, hf⟩ := bind_eq_ok_iff.1 hrun
  exact h a s c₁ b c' hf

theorem pure {a : α} {P : α → Prop} (h : P a) : Gives (pure a : Rule α) P := by
  intro s c b c' hrun
  cases hrun
  exact h

theorem throw (f : Fault) {P : α → Prop} : Gives (throw f : Rule α) P := by
  intro s c b c' hrun
  cases hrun

theorem node {start : Span} {build : Span → α} {P : α → Prop} (h : ∀ s, P (build s)) :
    Gives (node start build) P :=
  bind fun s => bind fun _ => pure (h s)

theorem inr_node {start : Span} {build : Span → β} {P : α → Prop} {Q : β → Prop}
    (h : ∀ s, Q (build s)) :
    Gives (do return .inr (← Grammar.node start build) : Rule (α ⊕ β)) (Sum.elim P Q) := by
  intro s c r c' hrun
  obtain ⟨b, c₁, hb, hrun⟩ := bind_eq_ok_iff.1 hrun
  cases hrun
  exact node h s c b _ hb

theorem failInvalid (kind : SyntaxError.Kind) {P : α → Prop} :
    Gives (failInvalid kind : Rule α) P := by
  refine bind fun t => ?_
  split
  · exact throw _
  · exact throw _
  · exact throw _
  · exact throw _

theorem failExpecting (text : String) {P : α → Prop} :
    Gives (failExpecting text : Rule α) P :=
  bind fun _ => throw _

theorem repeating {γ : Type} {look : α → Rule (β ⊕ γ)} {step : α → γ → Rule (β ⊕ α)}
    {P : β → Prop} {I : α → Prop}
    (hl : ∀ a, I a → Gives (look a) (Sum.elim P fun _ => True))
    (hs : ∀ a c, I a → Gives (step a c) (Sum.elim P I)) (n : Nat) (a : α) (ha : I a) :
    Gives (repeating look step n a) P := by
  intro s c b c' hrun
  -- Induction on the passes that are left; the invariant holds of what is built so far.
  induction n generalizing a c with
  | zero =>
    rw [Grammar.repeating] at hrun
    obtain ⟨r, c₁, hlook, hrun⟩ := bind_eq_ok_iff.1 hrun
    have first := hl a ha s c r c₁ hlook
    cases r with
    | inl b' =>
      cases hrun
      exact first
    | inr x => cases hrun
  | succ n ih =>
    rw [Grammar.repeating] at hrun
    obtain ⟨r, c₁, hlook, hrun⟩ := bind_eq_ok_iff.1 hrun
    have first := hl a ha s c r c₁ hlook
    cases r with
    | inl b' =>
      cases hrun
      exact first
    | inr x =>
      obtain ⟨r, c₂, hstep, hrun⟩ := bind_eq_ok_iff.1 hrun
      have next := hs a x ha s c₁ r c₂ hstep
      cases r with
      | inl b' =>
        cases hrun
        exact next
      | inr a' => exact ih a' next c₂ hrun

end Gives

/-- What the rule gives at the cursor was written by one of the tokens left. -/
def TakesAt (s : Setting) (c : Cursor) (r : Rule Expr) : Prop :=
  ∀ e c', r s c = .ok e c' → e.TakenFrom (s.finish :: c.rest)

/-- What the rule gives was written by one of the tokens left. -/
def Takes (r : Rule Expr) : Prop :=
  ∀ s c, TakesAt s c r

theorem TakesAt.apply {r : Rule Expr} {s : Setting} {c c' : Cursor} {e : Expr}
    (hrun : r s c = .ok e c') (h : TakesAt s c r) : e.TakenFrom (s.finish :: c.rest) :=
  h e c' hrun

theorem Gives.of_peek {f : Token → Rule α} {P : Token → α → Prop} (h : ∀ t, Gives (f t) (P t))
    {s : Setting} {c c' : Cursor} {a : α} (hrun : (peek >>= f) s c = .ok a c') :
    P (s.next c) a := by
  obtain ⟨t, c₁, ht, hf⟩ := bind_eq_ok_iff.1 hrun
  cases ht
  exact h _ s c a c' hf

theorem TakesAt.of_peek {f : Token → Rule Expr} {s : Setting} {c : Cursor}
    (h : TakesAt s c (f (s.next c))) : TakesAt s c (peek >>= f) := by
  intro e c' hrun
  obtain ⟨t, c₁, ht, hf⟩ := bind_eq_ok_iff.1 hrun
  cases ht
  exact h e c' hf

theorem Gives.takesAt {r : Rule Expr} (h : Gives r fun e => ∀ ts, e.TakenFrom ts) (s : Setting)
    (c : Cursor) : TakesAt s c r :=
  fun e c' hrun => h s c e c' hrun _

theorem next_mem (s : Setting) (c : Cursor) : s.next c ∈ s.finish :: c.rest := by
  unfold Setting.next
  cases c.rest with
  | nil => exact List.mem_cons_self
  | cons t ts => exact List.mem_cons_of_mem _ List.mem_cons_self

/-! ### Operands -/

theorem gives_literal (t : Token) (l : Literal) :
    Gives (literal t l) fun e => ∃ s, e = .literal s l := by
  refine .bind fun _ => ?_
  split
  · exact .bind fun _ => .node fun s => ⟨s, rfl⟩
  · exact .node fun s => ⟨s, rfl⟩

theorem gives_timeLiteral (t : Token) (value : Except Fault Literal.Value) :
    Gives (timeLiteral t value) fun e => ∃ s v, value = .ok v ∧ e = .literal s ⟨v, t.text, none⟩ := by
  refine .bind fun _ => ?_
  cases value with
  | ok v => exact .node fun s => ⟨s, v, rfl, rfl⟩
  | error f => exact .throw f

theorem gives_typedLiteral :
    Gives typedLiteral fun e => ∃ s l, e = .literal s l ∧ l.typeName ≠ none := by
  have typed (type : Token) (value : Literal.Value) :
      Gives (typedNode type value) fun e => ∃ s l, e = .literal s l ∧ l.typeName ≠ none :=
    .bind fun _ => .bind fun _ => .node fun s => ⟨s, _, rfl, nofun⟩
  unfold typedLiteral
  refine .bind fun type => .bind fun _ => .bind fun minus => .bind fun t => ?_
  split
  · split
    · exact .failExpecting _
    · exact .bind fun _ => typed _ _
  · exact .bind fun _ => typed _ _
  · exact .bind fun _ => typed _ _
  · exact .failExpecting _
  · split
    · exact .failExpecting _
    · exact .bind fun _ => typed _ _
  · exact .failExpecting _

theorem variableRoot_takes {s : Setting} {c c' : Cursor} {v : Variable}
    (h : variableRoot s c = .ok v c') : v.TakenFrom (s.finish :: c.rest) := by
  refine Gives.of_peek (P := fun t v => t ∈ s.finish :: c.rest → v.TakenFrom (s.finish :: c.rest))
    (fun t => ?_) h (next_mem s c)
  refine .bind fun d => ?_
  dsimp only
  split
  · exact .bind fun _ => .node fun _ _ => trivial
  · split
    · exact .bind fun _ => .node fun _ _ => trivial
    · exact .failInvalid _
  · split
    · exact .bind fun _ => .bind fun _ => .node fun _ _ => trivial
    · exact .failInvalid _
  · next a ha => exact .bind fun _ => .node fun _ place => ⟨t, place, ha, rfl⟩
  · exact .failInvalid _

/-- No access makes an address of a variable. -/
theorem gives_variableAccess (expression : Rule Expr) {ts : List Token} {v : Variable}
    (hv : v.TakenFrom ts) : Gives (variableAccess expression v)
      (Sum.elim (fun v => v.TakenFrom ts) fun v => v.TakenFrom ts) := by
  unfold variableAccess
  refine .bind fun dot => .bind fun member => ?_
  split
  · exact .bind fun _ => .bind fun m => .inr_node fun _ => trivial
  · refine .bind fun bracket => ?_
    split
    · exact .bind fun _ => .bind fun is => .bind fun _ => .inr_node fun _ => trivial
    · refine .bind fun caret => .bind fun d => ?_
      split
      · exact .bind fun _ => .inr_node fun _ => trivial
      · exact .pure hv

/-- A variable that is an address is the token it begins with. -/
theorem variableWith_takes (expression : Rule Expr) {s : Setting} {c c' : Cursor} {v : Variable}
    (h : variableWith expression s c = .ok v c') : v.TakenFrom (s.finish :: c.rest) := by
  obtain ⟨root, c₁, hroot, h⟩ := bind_eq_ok_iff.1 h
  have first := variableRoot_takes hroot
  obtain ⟨n, c₂, -, h⟩ := bind_eq_ok_iff.1 h
  refine Gives.repeating (I := fun v => v.TakenFrom (s.finish :: c.rest)) ?_ ?_ n root first s c₂ v c' h
  · exact fun v _ => .pure trivial
  · exact fun v _ => gives_variableAccess expression

theorem variableOrCall_takes (expression : Rule Expr) : Takes (variableOrCall expression) := by
  intro s c e c' h
  obtain ⟨v, c₁, hv, h⟩ := bind_eq_ok_iff.1 h
  have taken := variableWith_takes expression hv
  refine Gives.apply h (.bind fun paren => ?_)
  split
  · split
    · exact .bind fun _ => .throw _
    · exact .bind fun _ => .node fun _ => trivial
  · exact .pure taken

theorem primary_takes (expression : Rule Expr) : Takes (primary expression) := by
  intro s c
  refine .of_peek ?_
  have place := next_mem s c
  split
  -- Only two of the rules give a plain literal, and these read the token that is seen.
  · next _ _ l hl =>
    intro e c' h
    obtain ⟨_, rfl⟩ := gives_literal _ l s c e c' h
    exact fun _ => ⟨_, place, .inl hl⟩
  · next value hl hv =>
    intro e c' h
    obtain ⟨_, v, rfl, rfl⟩ := gives_timeLiteral _ value s c e c' h
    exact fun _ => ⟨_, place, .inr ⟨hl, v, hv, rfl⟩⟩
  · split
    · refine Gives.takesAt (.bind fun _ => .bind fun _ => .bind fun _ => .node ?_) s c
      exact fun _ _ => True.intro
    · intro e c' h
      obtain ⟨next, c₂, hn, h⟩ := bind_eq_ok_iff.1 h
      cases hn
      obtain ⟨value, c₃, hn, h⟩ := bind_eq_ok_iff.1 h
      cases hn
      refine TakesAt.apply h ?_
      split
      · intro e c' h
        obtain ⟨_, l, rfl, typed⟩ := gives_typedLiteral s _ e c' h
        exact fun untyped => absurd untyped typed
      · split
        · exact variableOrCall_takes expression s c
        · exact Gives.takesAt (.failInvalid _) s c

theorem advance_rest {s : Setting} {c c' : Cursor} {t : Token} (h : advance s c = .ok t c') :
    c'.rest ⊆ c.rest := by
  obtain ⟨rest, _, _, _, _, _, _⟩ := c
  cases rest with
  | nil =>
    cases h
    exact List.Subset.refl _
  | cons t ts =>
    cases h
    exact List.subset_cons_self _ _

theorem unaryBody_takes {unary : Rule Expr} (powerOperand : Rule Expr) (hu : Takes unary) :
    Takes (unaryBody unary powerOperand) := by
  intro s c
  refine .of_peek ?_
  split
  · refine Gives.takesAt (.bind fun _ => .bind fun _ => .node ?_) s c
    exact fun _ _ => True.intro
  · refine Gives.takesAt (.bind fun _ => .bind fun _ => .node ?_) s c
    exact fun _ _ => True.intro
  · -- a plus sign gives its operand
    intro e c' h
    obtain ⟨_, c₂, hadv, h⟩ := bind_eq_ok_iff.1 h
    obtain ⟨x, c₃, hx, h⟩ := bind_eq_ok_iff.1 h
    cases h
    have taken := (hu s c₂ x _ hx).mono (List.cons_subset_cons _ (advance_rest hadv))
    exact taken.withSpan _
  · exact primary_takes _ s c

theorem unary_takes (levels : Nat) : Takes (unary levels) := by
  induction levels with
  | zero =>
    intro s c e c' h
    cases h
  | succ levels ih =>
    intro s c e c' h
    rw [unary, nested, bracket_apply] at h
    cases hbody : unaryBody (unary levels) (powerOperand levels) s c.enter with
    | error f c₁ =>
      rw [hbody] at h
      cases h
    | ok x c₁ =>
      rw [hbody] at h
      cases h
      exact unaryBody_takes _ ih s c.enter e c₁ hbody

theorem expression_takes (levels : Nat) : Takes (expression levels) := by
  intro s c e c' h
  obtain ⟨first, c₁, hfirst, h⟩ := bind_eq_ok_iff.1 h
  have taken := unary_takes levels s c first c₁ hfirst
  obtain ⟨n, c₂, -, h⟩ := bind_eq_ok_iff.1 h
  refine Gives.apply h (.repeating (I := fun e => e.TakenFrom (s.finish :: c.rest)) ?_ ?_ n first taken)
  · intro x hx
    refine .bind fun l => ?_
    split
    · split
      · exact .pure trivial
      · exact .pure hx
    · exact .pure hx
  · intro x op hx
    exact .bind fun _ => .bind fun right => .inr_node fun _ => trivial

end Grammar

/-! ### The tokens of a text -/

open Lexed

/-- An expression that a text is was written by its tokens. -/
theorem Reading.expression_takenFrom {r : Reading} {e : Expr} (h : r.expression = .ok e) :
    ∃ ts, e.TakenFrom ts ∧ ∀ t ∈ ts, t.lexeme = .finish ∨ t ∈ (scan r.dialect r.source).1 := by
  unfold Reading.expression strictly run at h
  cases hts : tokensWithin r.limits r.dialect r.source with
  | error f =>
    rw [hts] at h
    cases h
  | ok ts =>
    rw [hts] at h
    dsimp only at h
    -- The tokens within the limits are all tokens of the text, or there is an error.
    have own : ts = (scan r.dialect r.source).1 := by
      unfold tokensWithin at hts
      repeat' split at hts
      all_goals cases hts
      next heq => rw [heq]
    -- What stands for the end is the last token, so that it is one of the text too.
    have last : (ts.getLastD (Scanner.finish r.source.length)).lexeme = .finish ∨
        ts.getLastD (Scanner.finish r.source.length) ∈ ts := by
      cases hl : ts.getLast? with
      | none =>
        rw [List.getLastD_eq_getLast?, hl]
        exact .inl rfl
      | some t =>
        rw [List.getLastD_eq_getLast?, hl]
        exact .inr (List.mem_of_getLast? hl)
    generalize ts.getLastD (Scanner.finish r.source.length) = fin at h last
    have sub : (Cursor.before ts).rest ⊆ ts :=
      List.Subset.trans (liftPragmas_sublist 0 [] ts.dropLast).subset (List.dropLast_subset ts)
    generalize Cursor.before ts = start at h sub
    cases hrun : whole Grammar.expression r.limits.maxDepth
        ⟨r.source, r.dialect, r.limits, false, fin⟩ start with
    | error f c =>
      rw [hrun] at h
      cases h
    | ok e' c =>
      rw [hrun] at h
      cases h
      obtain ⟨x, c₁, hx, hend⟩ := bind_eq_ok_iff.1 hrun
      obtain ⟨_, c₂, -, hsame⟩ := bind_eq_ok_iff.1 hend
      cases hsame
      refine ⟨_, expression_takes _ _ _ _ _ hx, fun t ht => ?_⟩
      rw [← own]
      obtain rfl | ht := List.mem_cons.1 ht
      · exact last
      · exact .inr (sub ht)

/-- The word is a constant or an address, and its characters are read as it and no more. -/
structure Word.IsOperand (d : Dialect) (w : Word) : Prop where
  operand : isOperand w.lexeme = true
  read : ∃ c cs, w.text.toList = c :: cs ∧ Lexed.read d c cs = .ok ⟨w.lexeme, c :: cs, []⟩

/-- A constant or an address that is as long as the text it is found in is the text. -/
theorem Token.word_isOperand {d : Dialect} {t : Token} {text : String}
    (h : t ∈ (scan d text.toList).1) (operand : isOperand t.lexeme = true) (same : t.text = text) :
    t.word.IsOperand d := by
  obtain hf | hm | ⟨c, cs, x, hx, lexeme, written, place⟩ := readIn_of_mem_scan h
  · rw [hf] at operand
    cases operand
  · rw [hm] at operand
    cases operand
  · obtain ⟨-, whole⟩ := read_splits d c cs x hx
    have own : x.text = text.toList := by rw [← same, written, String.toList_ofList]
    have shorter := place.length_le
    have longer := congrArg List.length whole
    rw [List.length_append, own] at longer
    have none_left : x.rest = [] := List.eq_nil_of_length_eq_zero (by omega)
    rw [none_left, List.append_nil] at whole
    refine ⟨operand, c, cs, ?_, ?_⟩
    · show t.text.toList = c :: cs
      rw [same, ← own, whole]
    · rw [hx]
      show _ = Except.ok (Lexed.mk t.lexeme (c :: cs) [])
      rw [lexeme, ← whole, ← none_left]

theorem opensOperand_of_read {d : Dialect} {c : Char} {cs : List Char} {x : Lexed}
    (hr : Lexed.read d c cs = .ok x) (hx : isOperand x.lexeme = true) : opensOperand c = true := by
  by_contra other
  simp only [opensOperand, Bool.or_eq_true, List.contains_eq_mem, decide_eq_true_eq, List.mem_cons,
    List.not_mem_nil, or_false, not_or] at other
  obtain ⟨⟨name, digit⟩, narrow, wide, percent⟩ := other
  unfold Lexed.read at hr
  rw [if_neg name, if_neg digit, if_neg narrow, if_neg wide, if_neg percent] at hr
  split at hr
  · cases hr
    rw [not_isOperand_pragma] at hx
    cases hx
  · cases hr
    rw [not_isOperand_mark] at hx
    cases hx

namespace Word.IsOperand

variable {d : Dialect} {w : Word}

theorem opens (h : w.IsOperand d) : ∀ c ∈ w.text.toList.head?, opensOperand c = true := by
  obtain ⟨c, cs, text, read⟩ := h.read
  rw [text]
  rintro _ ⟨⟩
  exact opensOperand_of_read read h.operand

/-- A constant or an address stands where nothing makes it longer. -/
theorem stands (h : w.IsOperand d) {rest : List Char} (apart : Apart rest)
    (ends : isTime w.lexeme = true → Ends rest) : w.Stands d rest := by
  obtain ⟨c, cs, text, read⟩ := h.read
  obtain ⟨blank, others⟩ := clear_of_opensOperand (opensOperand_of_read read h.operand)
  simp only [List.mem_cons, not_or] at others
  obtain ⟨slash, paren, -, -, -, mark, -⟩ := others
  refine ⟨fun pos => ?_, ⟨c, cs, text, mark, ?_⟩, ?_⟩
  · rw [text]
    exact Gap.skip_clear blank (absurd · slash) (absurd · paren) pos
  · exact read_append_rest d read h.operand apart ends
  · have operand := h.operand
    constructor
    · intro finish
      rw [finish] at operand
      cases operand
    · intro p pragma
      rw [pragma] at operand
      cases operand

theorem ofText_eq (h : w.IsOperand d) : ofText d w.text = w := by
  obtain ⟨c, cs, text, read⟩ := h.read
  unfold ofText
  rw [text]
  dsimp only
  rw [read]

end Word.IsOperand

/-! ### Constants and addresses -/

/-- What a token stands for does not depend on its place. -/
theorem Token.Means.congr {t u : Token} {l : Literal} (h : t.Means l) (same : t.word = u.word) :
    u.Means l := by
  obtain ⟨lexeme, text, span⟩ := t
  obtain ⟨lexeme', text', span'⟩ := u
  cases same
  obtain plain | ⟨other, v, value, rfl⟩ := h
  · exact .inl plain
  · refine .inr ⟨other, v, ?_, rfl⟩
    cases lexeme with
    | duration p =>
      simp only [timeValue?] at value ⊢
      revert value
      cases Literal.Duration.nanoseconds p.toList with
      | ok n => exact id
      | error e =>
        cases e with
        | _ => nofun
    | date p | timeOfDay p | dateAndTime p =>
      simp only [timeValue?, Option.some.injEq] at value ⊢
      split at value
      · next shaped => rw [if_pos shaped, value]
      · cases value
    | _ => cases value

theorem Token.Means.isOperand {t : Token} {l : Literal} (h : t.Means l) :
    isOperand t.lexeme = true := by
  obtain ⟨lexeme, text, span⟩ := t
  obtain plain | ⟨-, v, value, -⟩ := h
  · unfold plainLiteral? at plain
    split at plain
    all_goals cases plain
    all_goals next lexeme => cases lexeme; rfl
  · unfold timeValue? at value
    dsimp only at value
    split at value
    all_goals first | rfl | cases value

theorem Token.Means.text {t : Token} {l : Literal} (h : t.Means l) : t.text = l.text := by
  obtain plain | ⟨-, v, -, rfl⟩ := h
  · unfold plainLiteral? at plain
    split at plain
    all_goals cases plain
    all_goals rfl
  · rfl

/-- A literal that is its own text is one token, and the token means the literal. -/
theorem Literal.IsOwnText.word {l : Literal} (h : l.IsOwnText) :
    ∃ w : Word, w.IsOperand .generic ∧ w.text = l.text ∧ ∀ t : Token, t.word = w → t.Means l := by
  obtain ⟨untyped, limits, s, read⟩ := h
  obtain ⟨ts, taken, known⟩ := Reading.expression_takenFrom read
  obtain ⟨t, ht, means⟩ := taken untyped
  refine ⟨t.word, ?_, means.text, fun u same => means.congr same.symm⟩
  obtain finish | listed := known t ht
  · have operand := means.isOperand
    rw [finish] at operand
    cases operand
  · exact Token.word_isOperand listed means.isOperand means.text

theorem Address.IsOwnText.word {a : Address} {text : String} (h : a.IsOwnText text) :
    (Word.mk (.address a) text).IsOperand .generic := by
  obtain ⟨limits, s, read⟩ := h
  obtain ⟨ts, taken, known⟩ := Reading.expression_takenFrom read
  obtain ⟨t, ht, lexeme, written⟩ := taken
  obtain finish | listed := known t ht
  · rw [lexeme] at finish
    cases finish
  · have operand := Token.word_isOperand listed (by rw [lexeme]; rfl) written
    have same : t.word = ⟨.address a, text⟩ := by rw [Token.word, lexeme, written]
    rwa [same] at operand

end Plc

/-
Rules that read given words.

A rule `Reads` from before some words to before others when it gives what it should
there, or ends because a bound is passed.  The rules of a grammar are put together from
smaller ones, and so are the words they read.

* `Reads.bind`, `Reads.look` — one rule after another;
* `Reads.expect`, `Reads.node` and others — the rules for single tokens and nodes;
* `Reads.repeating_more`, `Reads.many_more`, `Reads.commaList` — loops.
-/
import Plc.Proofs.Grammar.Run
import Plc.Proofs.RoundTrip.Phrase

namespace Plc.Grammar

/-- The reading stands before the words, in a dialect and where some names are declared. -/
structure Before (d : Dialect) (names : List (List String)) (ws : List Word) (s : Setting)
    (c : Cursor) : Prop where
  dialect : s.dialect = d
  finish : s.finish.lexeme = .finish
  declared : c.declared = names
  words : c.rest.map Token.word = ws

/-- The rule gives what has the property and comes from before the first words to before the
others, unless a bound is passed. -/
def Reads (d : Dialect) (names : List (List String)) {α : Type} (r : Rule α) (P : α → Prop)
    (ws ws' : List Word) : Prop :=
  ∀ s c, Before d names ws s c →
    (∃ a c', r s c = .ok a c' ∧ P a ∧ Before d names ws' s c') ∨ ∃ e c', r s c = .error (.limit e) c'

/-- The lexeme of the word `n` places ahead. -/
def ahead : List Word → Nat → Lexeme
  | [], _ => .finish
  | w :: _, 0 => w.lexeme
  | _ :: ws, n + 1 => ahead ws n

variable {d : Dialect} {names : List (List String)} {α β γ : Type} {P : α → Prop} {Q : β → Prop}
  {w : Word} {ws ws₁ ws' : List Word}

theorem Before.ahead {s : Setting} {c : Cursor} (h : Before d names ws s c) (n : Nat) :
    (c.rest.getD n s.finish).lexeme = ahead ws n := by
  obtain ⟨-, finish, -, words⟩ := h
  generalize c.rest = ts at words
  subst words
  induction ts generalizing n with
  | nil => exact finish
  | cons t ts ih =>
    cases n with
    | zero => rfl
    | succ n => exact ih n

namespace Reads

/-! ### Rules in a row -/

theorem pure {a : α} (h : P a) : Reads d names (pure a : Rule α) P ws ws :=
  fun _ c before => .inl ⟨a, c, rfl, h, before⟩

theorem bind {r : Rule α} {f : α → Rule β} (h : Reads d names r P ws ws₁)
    (hf : ∀ a, P a → Reads d names (f a) Q ws₁ ws') : Reads d names (r >>= f) Q ws ws' := by
  intro s c before
  rw [bind_apply]
  obtain ⟨a, c₁, run, ha, after⟩ | ⟨e, c₁, run⟩ := h s c before
  · rw [run]
    exact hf a ha s c₁ after
  · rw [run]
    exact .inr ⟨e, c₁, rfl⟩

/-- It is known what the first rule gives. -/
theorem look {r : Rule α} {f : α → Rule β} {a : α} (h : Reads d names r (· = a) ws ws₁)
    (hf : Reads d names (f a) Q ws₁ ws') : Reads d names (r >>= f) Q ws ws' :=
  h.bind fun _ same => same ▸ hf

/-- What follows on a choice is the same for both of its sides. -/
theorem choose {look : Rule Bool} {r r' : Rule α} {f : α → Rule β}
    (h : Reads d names (look >>= fun b => if b then r else r') P ws ws₁)
    (hf : ∀ a, P a → Reads d names (f a) Q ws₁ ws') :
    Reads d names (look >>= fun b => if b then r >>= f else r' >>= f) Q ws ws' := by
  have same : (look >>= fun b => if b then r >>= f else r' >>= f) =
      (look >>= fun b => if b then r else r') >>= f := by
    rw [bind_assoc]
    congr
    funext b
    cases b <;> rfl
  rw [same]
  exact h.bind hf

theorem mono {r : Rule α} {P' : α → Prop} (h : Reads d names r P ws ws')
    (weaker : ∀ a, P a → P' a) : Reads d names r P' ws ws' := by
  intro s c before
  obtain ⟨a, c₁, run, ha, after⟩ | limit := h s c before
  · exact .inl ⟨a, c₁, run, weaker a ha, after⟩
  · exact .inr limit

theorem map {r : Rule α} {f : α → β} (h : Reads d names r P ws ws') (hf : ∀ a, P a → Q (f a)) :
    Reads d names (f <$> r) Q ws ws' := by
  rw [map_eq_pure_bind]
  exact h.bind fun a ha => pure (hf a ha)

theorem ite_pos {c : Prop} [Decidable c] {r r' : Rule α} (hc : c) (h : Reads d names r P ws ws') :
    Reads d names (if c then r else r') P ws ws' := by
  rw [if_pos hc]
  exact h

theorem ite_neg {c : Prop} [Decidable c] {r r' : Rule α} (hc : ¬c)
    (h : Reads d names r' P ws ws') : Reads d names (if c then r else r') P ws ws' := by
  rw [if_neg hc]
  exact h

/-- A rule that may run first changes nothing. -/
theorem optional {c : Prop} [Decidable c] {look : Rule β} {r : Rule α}
    (first : Reads d names look (fun _ => True) ws ws) (h : Reads d names r P ws ws') :
    Reads d names (if c then look >>= fun _ => r else r) P ws ws' := by
  by_cases hc : c
  · exact ite_pos hc (first.bind fun _ _ => h)
  · exact ite_neg hc h

/-! ### Looking ahead -/

theorem peekAt (n : Nat) : Reads d names (peekAt n) (·.lexeme = Grammar.ahead ws n) ws ws :=
  fun _ c before => .inl ⟨_, c, rfl, before.ahead n, before⟩

theorem lexemeAt (n : Nat) : Reads d names (lexemeAt n) (· = Grammar.ahead ws n) ws ws :=
  (peekAt n).bind fun _ h => pure h

theorem lexeme : Reads d names lexeme (· = Grammar.ahead ws 0) ws ws :=
  lexemeAt 0

theorem sees (t : Terminal) : Reads d names (sees t) (· = (Grammar.ahead ws 0).is t) ws ws :=
  lexeme.bind fun _ h => pure (h ▸ rfl)

theorem atEnd : Reads d names atEnd (· = (Grammar.ahead ws 0).isFinish) ws ws :=
  lexeme.bind fun _ h => pure (h ▸ rfl)

theorem peek : Reads d names peek (·.word = w) (w :: ws) (w :: ws) := by
  intro s c before
  refine .inl ⟨_, c, rfl, ?_, before⟩
  obtain ⟨-, -, -, words⟩ := before
  cases hc : c.rest with
  | nil =>
    rw [hc] at words
    cases words
  | cons t ts =>
    rw [hc] at words
    exact (List.cons.inj words).1

theorem dialect : Reads d names dialect (· = d) ws ws :=
  fun s c before => .inl ⟨s.dialect, c, rfl, before.dialect, before⟩

theorem limits : Reads d names limits (fun _ => True) ws ws :=
  fun s c before => .inl ⟨s.limits, c, rfl, trivial, before⟩

theorem passes : Reads d names passes (fun _ => True) ws ws :=
  limits.bind fun _ _ => pure trivial

theorem tokensLeft : Reads d names tokensLeft (fun ts => ts.map Token.word = ws) ws ws :=
  fun _ c before => .inl ⟨c.rest, c, rfl, before.words, before⟩

theorem isDeclared (name : String) :
    Reads d names (isDeclared name) (· = names.any (·.contains name)) ws ws :=
  fun _ c before => .inl ⟨_, c, rfl, before.declared ▸ rfl, before⟩

/-! ### Single tokens -/

theorem advance : Reads d names advance (·.word = w) (w :: ws) ws := by
  intro s c before
  obtain ⟨dialect, finish, declared, words⟩ := before
  obtain ⟨ts, index, lastStop, pragmas, usage, declared', errors⟩ := c
  cases ts with
  | nil => cases words
  | cons t ts =>
    obtain ⟨first, rest⟩ := List.cons.inj words
    exact .inl ⟨t, _, rfl, first, dialect, finish, declared, rest⟩

theorem expect {t : Terminal} (h : w.lexeme.is t = true) :
    Reads d names (expect t) (·.word = w) (w :: ws) ws := by
  exact look (sees t) (ite_pos h advance)

theorem accept {t : Terminal} (h : w.lexeme.is t = true) :
    Reads d names (accept t) (· = true) (w :: ws) ws := by
  exact look (sees t) (ite_pos h (advance.bind fun _ _ => pure rfl))

theorem not_accept {t : Terminal} (h : (Grammar.ahead ws 0).is t = false) :
    Reads d names (Grammar.accept t) (· = false) ws ws := by
  exact look (sees t) (ite_neg (by rw [h]; exact Bool.false_ne_true) (pure rfl))

theorem expectClosing {t : Terminal} (h : w.lexeme.is t = true) (opener : Token)
    (kind : SyntaxError.Kind) :
    Reads d names (expectClosing t opener kind) (fun _ => True) (w :: ws) ws := by
  exact look (sees t) (ite_pos h (advance.bind fun _ _ => pure trivial))

theorem expectSemicolon :
    Reads d names expectSemicolon (fun _ => True) (.mark .semicolon :: ws) ws := by
  refine peek.bind fun t ht => ?_
  have semicolon : t.lexeme = .mark .semicolon := congrArg Word.lexeme ht
  rw [semicolon]
  exact advance.bind fun _ _ => pure trivial

theorem expectName (n expected : String) :
    Reads d names (expectName expected) (·.word = .name n) (.name n :: ws) ws := by
  exact look lexeme advance

theorem expectAnyName (n expected : String) :
    Reads d names (expectAnyName expected) (·.word = .name n) (.name n :: ws) ws := by
  exact look lexeme advance

/-! ### Bounds and nodes -/

theorem checkLimit (kind : LimitKind) (value : Nat) (span : Span) :
    Reads d names (checkLimit kind value span) (fun _ => True) ws ws := by
  refine limits.bind fun bounds _ => ?_
  cases bounds.check kind value span with
  | ok u => exact pure trivial
  | error e => exact fun _ c _ => .inr ⟨e, c, rfl⟩

theorem checkSize (size : Nat) (span : Span) :
    Reads d names (checkSize size span) (fun _ => True) ws ws :=
  checkLimit _ _ _

theorem recordNode (span : Span) : Reads d names (recordNode span) (fun _ => True) ws ws := by
  have added : Reads d names (modify fun c => { c with usage := c.usage.addNode } : Rule PUnit)
      (fun _ => True) ws ws :=
    fun s c before => .inl ⟨_, _, rfl, trivial, before.1, before.2, before.3, before.4⟩
  have seen : Reads d names (get : Rule Cursor) (fun _ => True) ws ws :=
    fun s c before => .inl ⟨c, c, rfl, trivial, before⟩
  exact added.bind fun _ _ => seen.bind fun _ _ => checkLimit _ _ _

theorem node (start : Span) (build : Span → α) :
    Reads d names (node start build) (fun a => ∃ s, a = build s) ws ws := by
  have placed : Reads d names (spanFrom start) (fun _ => True) ws ws :=
    fun s c before => .inl ⟨_, c, rfl, trivial, before⟩
  exact placed.bind fun s _ => (recordNode s).bind fun _ _ => pure ⟨s, rfl⟩

theorem nested {r : Rule α} (h : Reads d names r P ws ws') : Reads d names (nested r) P ws ws' := by
  intro s c before
  rw [Grammar.nested, bracket_apply]
  obtain ⟨a, c₁, run, ha, after⟩ | ⟨e, c₁, run⟩ :=
    h s c.enter ⟨before.1, before.2, before.3, before.4⟩
  · rw [run]
    exact .inl ⟨a, _, rfl, ha, after.1, after.2, after.3, after.4⟩
  · rw [run]
    exact .inr ⟨e, _, rfl⟩

theorem declaring {r : Rule α} {inner : List String}
    (h : Reads d (inner :: names) r P ws ws') : Reads d names (declaring inner r) P ws ws' := by
  intro s c before
  rw [Grammar.declaring, bracket_apply]
  obtain ⟨a, c₁, run, ha, after⟩ | ⟨e, c₁, run⟩ :=
    h s { c with declared := inner :: c.declared }
      ⟨before.1, before.2, congrArg _ before.3, before.4⟩
  · rw [run]
    exact .inl ⟨a, _, rfl, ha, after.1, after.2, congrArg List.tail after.3, after.4⟩
  · rw [run]
    exact .inr ⟨e, _, rfl⟩

theorem tooDeep : Reads d names (tooDeep : Rule α) P ws ws' :=
  fun _ _ _ => .inr ⟨_, _, rfl⟩

theorem tooManyPasses : Reads d names (tooManyPasses : Rule α) P ws ws' :=
  fun _ _ _ => .inr ⟨_, _, rfl⟩

theorem recovering {r : Rule α} (h : Reads d names r P ws ws') (stops : Lexeme → Bool)
    (pastSemicolon : Bool) :
    Reads d names (recovering stops pastSemicolon r) (fun o => ∃ a, o = some a ∧ P a) ws ws' := by
  intro s c before
  unfold Grammar.recovering
  obtain ⟨a, c₁, run, ha, after⟩ | ⟨e, c₁, run⟩ := h s c before
  · rw [run]
    exact .inl ⟨some a, c₁, rfl, ⟨a, rfl, ha⟩, after⟩
  · rw [run]
    exact .inr ⟨e, c₁, rfl⟩

/-! ### Loops -/

theorem repeating_done {look : α → Rule (β ⊕ γ)} {step : α → γ → Rule (β ⊕ α)} {a : α} {b : β}
    (h : Reads d names (look a) (· = .inl b) ws ws) (hb : Q b) (n : Nat) :
    Reads d names (repeating look step n a) Q ws ws := by
  unfold Grammar.repeating
  exact .look h (pure hb)

theorem repeating_more {look : α → Rule (β ⊕ γ)} {step : α → γ → Rule (β ⊕ α)} {a : α} {c : γ}
    (h : Reads d names (look a) (· = .inr c) ws ws)
    (hstep : Reads d names (step a c) (Sum.elim (fun _ => False) P) ws ws₁)
    (hmore : ∀ n a', P a' → Reads d names (repeating look step n a') Q ws₁ ws') (n : Nat) :
    Reads d names (repeating look step n a) Q ws ws' := by
  cases n with
  | zero =>
    rw [Grammar.repeating]
    exact .look h tooManyPasses
  | succ n =>
    rw [Grammar.repeating]
    refine .look h (hstep.bind fun r hr => ?_)
    cases r with
    | inl b => exact hr.elim
    | inr a' => exact hmore n a' hr

/-- A loop that makes one pass. -/
theorem repeating_once {look : α → Rule (α ⊕ γ)} {step : α → γ → Rule (α ⊕ α)} {a : α} {x : γ}
    (begins : Reads d names (look a) (· = .inr x) ws ws)
    (hstep : Reads d names (step a x) (Sum.elim (fun _ => False) P) ws ws')
    (ends : ∀ a, Reads d names (look a) (· = .inl a) ws' ws') (n : Nat) :
    Reads d names (repeating look step n a) P ws ws' :=
  repeating_more begins hstep (fun n a ha => repeating_done (ends a) ha n) n

theorem repeating_last {look : α → Rule (β ⊕ γ)} {step : α → γ → Rule (β ⊕ α)} {a : α} {c : γ}
    {b : β} (h : Reads d names (look a) (· = .inr c) ws ws)
    (hstep : Reads d names (step a c) (· = .inl b) ws ws) (hb : Q b) (n : Nat) :
    Reads d names (repeating look step n a) Q ws ws := by
  cases n with
  | zero =>
    rw [Grammar.repeating]
    exact .look h tooManyPasses
  | succ n =>
    rw [Grammar.repeating]
    exact .look h (.look hstep (pure hb))

variable {more : Rule Bool} {item : Nat → Rule (List α)}

theorem many_done {S : List α → Prop} (h : Reads d names more (· = false) ws ws) (hs : S [])
    (n size : Nat) : Reads d names (many more item n size) S ws ws := by
  unfold Grammar.many
  exact .look h (pure hs)

theorem many_more {S S' : List α → Prop} (h : Reads d names more (· = true) ws ws)
    (hitem : ∀ size, Reads d names (item size) (fun xs => ∃ x, xs = [x] ∧ P x) ws ws₁)
    (hmore : ∀ n size, Reads d names (many more item n size) S ws₁ ws')
    (hs : ∀ x xs, P x → S xs → S' (x :: xs)) (n size : Nat) :
    Reads d names (many more item n size) S' ws ws' := by
  cases n with
  | zero =>
    rw [Grammar.many]
    exact .look h tooManyPasses
  | succ n =>
    rw [Grammar.many]
    refine .look h ((hitem size).bind fun xs hx => (hmore n _).bind fun ys hy => pure ?_)
    obtain ⟨x, rfl, hx⟩ := hx
    exact hs x ys hx hy

/-- A loop that makes one pass. -/
theorem many_once {P : List α → Prop} (begins : Reads d names more (· = true) ws ws)
    (hitem : Reads d names (item 0) P ws ws') (ends : Reads d names more (· = false) ws' ws') (n : Nat) :
    Reads d names (many more item n 0) P ws ws' := by
  cases n with
  | zero =>
    rw [Grammar.many]
    exact .look begins tooManyPasses
  | succ n =>
    rw [Grammar.many]
    refine .look begins (hitem.bind fun xs hxs => ?_)
    refine (many_done (S := (· = [])) ends rfl n _).bind ?_
    rintro _ rfl
    exact pure (by rwa [List.append_nil])

theorem whileTokens_none {step : α → Rule (Option α)} {a : α}
    (h : Reads d names (step a) (· = none) ws ws) :
    Reads d names (whileTokens step a) (· = a) ws ws :=
  tokensLeft.bind fun _ _ => .look h (pure rfl)

/-! ### Lists with commas -/

section

variable {κ : Type} (key : α → κ) (words : α → List Word) {follows : List Word → Prop}
  {one : Rule α} {spanOf : α → Span} {rest : List Word}

/-- An item is read before a comma and before what closes the list. -/
def Item (d : Dialect) (names : List (List String)) (key : α → κ) (words : α → List Word)
    (follows : List Word → Prop) (one : Rule α) (x : α) : Prop :=
  ∀ rest, follows rest → Reads d names one (fun a => key a = key x) (words x ++ rest) rest

variable {key words}

theorem commas_follow {xs : List α} (comma : ∀ ws, follows (.mark .comma :: ws))
    (last : follows rest) : follows ((xs.map words).flatMap (.mark .comma :: ·) ++ rest) := by
  cases xs with
  | nil => exact last
  | cons y ys => exact comma _

theorem listed {xs : List α} (some_item : xs ≠ [])
    (items : ∀ x ∈ xs, Item d names key words follows one x)
    (comma : ∀ ws, follows (.mark .comma :: ws)) (last : follows rest)
    (closed : (Grammar.ahead rest 0).is Mark.comma = false) (n size : Nat) :
    Reads d names (listed (Pure.pure true) one spanOf n size) (fun as => as.map key = xs.map key)
      (commaWords (xs.map words) ++ rest) rest := by
  -- Induction on the items; a comma follows each but the last one.
  induction xs generalizing n size with
  | nil => exact absurd rfl some_item
  | cons x xs ih =>
    rw [List.map_cons (f := words), commaWords, List.append_assoc]
    cases n with
    | zero =>
      rw [Grammar.listed]
      exact .look (pure rfl) tooManyPasses
    | succ n =>
      rw [Grammar.listed]
      refine .look (pure rfl) ?_
      refine (items x List.mem_cons_self _ (commas_follow comma last)).bind fun a ha => ?_
      refine (checkSize _ _).bind fun _ _ => ?_
      cases xs with
      | nil =>
        refine .look (not_accept closed) ?_
        exact pure (by rw [List.map_singleton, List.map_singleton, ha])
      | cons y ys =>
        have tail := ih (List.cons_ne_nil _ _) fun x hx => items x (List.mem_cons_of_mem _ hx)
        refine (accept rfl).look ?_
        exact (tail n _).bind fun as has => pure (by rw [List.map_cons, ha, has]; rfl)

theorem commaTail {xs : List α} (items : ∀ x ∈ xs, Item d names key words follows one x)
    (comma : ∀ ws, follows (.mark .comma :: ws)) (last : follows rest)
    (closed : (Grammar.ahead rest 0).is Mark.comma = false) (room : Nat) :
    Reads d names (commaTail one spanOf room) (fun as => as.map key = xs.map key)
      ((xs.map words).flatMap (.mark .comma :: ·) ++ rest) rest := by
  induction xs generalizing room with
  | nil =>
    unfold Grammar.commaTail
    refine .look (not_accept closed) ?_
    exact pure rfl
  | cons x xs ih =>
    have tail := ih fun x hx => items x (List.mem_cons_of_mem _ hx)
    rw [List.map_cons (f := words), List.flatMap_cons, List.append_assoc]
    unfold Grammar.commaTail
    refine (accept rfl).look ?_
    refine (items x List.mem_cons_self _ (commas_follow comma last)).bind fun a ha => ?_
    cases room with
    | zero => exact fun _ c _ => .inr ⟨_, c, rfl⟩
    | succ room => exact (tail room).bind fun as has => pure (by rw [List.map_cons, ha, has]; rfl)

theorem commaList {xs : List α} (some_item : xs ≠ [])
    (items : ∀ x ∈ xs, Item d names key words follows one x)
    (comma : ∀ ws, follows (.mark .comma :: ws)) (last : follows rest)
    (closed : (Grammar.ahead rest 0).is Mark.comma = false) :
    Reads d names (commaList one spanOf) (fun as => as.map key = xs.map key)
      (commaWords (xs.map words) ++ rest) rest := by
  cases xs with
  | nil => exact absurd rfl some_item
  | cons x xs =>
    rw [List.map_cons (f := words), commaWords, List.append_assoc]
    refine (items x List.mem_cons_self _ (commas_follow comma last)).bind fun a ha => ?_
    refine limits.bind fun _ _ => ?_
    have later := fun x hx => items x (List.mem_cons_of_mem _ hx)
    refine (commaTail later comma last closed _).bind fun as has => pure ?_
    rw [List.map_cons, ha, has]
    rfl

end

end Reads

end Plc.Grammar

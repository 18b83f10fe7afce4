/-
Relations between rules that the ways of building rules keep.

What is to be shown of all rules at once, such as that reading with and without recovery
agree, is a relation between two rules.  It is a `Congruence` when it holds between each
elementary rule and itself and carries over from the parts of a rule to the whole; it
then holds between every rule of the grammar and itself.

* `Steps`, `Congruence`, `RecoveryCongruence` — what such a relation has to keep, without loops,
  with them and with recovery; inside a further construct it may be another relation;
* `GrammarCongruence` — what it has to keep to hold between all rules and themselves;
* `Levels` — how many constructs may be opened on either side;
* `Steps.congruence` — loops need nothing else when the bounds on them are read alike;
* `Steps.accept_rel`, `Steps.expect_rel`, `Steps.node_rel`, … — the rules for single tokens.
-/
import Plc.Grammar.Decl

namespace Plc.Grammar

/-- The relation holds between elementary rules and themselves, and carries over to rules that run
one after the other or inside a bracket.  From inside a further construct the relation `N` carries
over to it. -/
structure Steps (Q : ⦃α : Type⦄ → Rule α → Rule α → Prop)
    (N : ⦃α : Type⦄ → Rule α → Rule α → Prop := Q) : Prop where
  pure {α : Type} (a : α) : Q (pure a) (pure a)
  bind {α β : Type} {r r' : Rule α} {f f' : α → Rule β} :
    Q r r' → (∀ a, Q (f a) (f' a)) → Q (r >>= f) (r' >>= f')
  throw {α : Type} (f : Fault) : Q (throw f : Rule α) (throw f)
  nested {α : Type} {r r' : Rule α} : N r r' → Q (nested r) (nested r')
  declaring {α : Type} {r r' : Rule α} (names : List String) :
    Q r r' → Q (declaring names r) (declaring names r')
  sourceText : Q sourceText sourceText
  dialect : Q dialect dialect
  lastStop : Q lastStop lastStop
  tokensLeft : Q tokensLeft tokensLeft
  peekAt (n : Nat) : Q (peekAt n) (peekAt n)
  advance : Q advance advance
  takeWaiting : Q takeWaiting takeWaiting
  recordNode (span : Span) : Q (recordNode span) (recordNode span)
  checkLimit (kind : LimitKind) (value : Nat) (span : Span) :
    Q (checkLimit kind value span) (checkLimit kind value span)
  tooManyPasses {α : Type} : Q (tooManyPasses : Rule α) tooManyPasses
  tooDeep {α : Type} : Q (tooDeep : Rule α) tooDeep

/-- The relation carries over to loops, too. -/
structure Congruence (Q : ⦃α : Type⦄ → Rule α → Rule α → Prop)
    (N : ⦃α : Type⦄ → Rule α → Rule α → Prop := Q) : Prop extends Steps Q N where
  repeating {α β γ : Type} {look look' : α → Rule (β ⊕ γ)} {step step' : α → γ → Rule (β ⊕ α)} :
    (∀ a, Q (look a) (look' a)) → (∀ a c, Q (step a c) (step' a c)) → ∀ a,
      Q (passes >>= fun n => repeating look step n a)
        (passes >>= fun n => repeating look' step' n a)
  many {α : Type} {more more' : Rule Bool} {item item' : Nat → Rule (List α)} :
    Q more more' → (∀ size, Q (item size) (item' size)) → ∀ size,
      Q (passes >>= fun n => many more item n size) (passes >>= fun n => many more' item' n size)
  listed {α : Type} {more more' : Rule Bool} {item item' : Rule α} (spanOf : α → Span) :
    Q more more' → Q item item' → ∀ size,
      Q (passes >>= fun n => listed more item spanOf n size)
        (passes >>= fun n => listed more' item' spanOf n size)
  commaList {α : Type} {item item' : Rule α} (spanOf : α → Span) :
    Q item item' → Q (commaList item spanOf) (commaList item' spanOf)

/-- The relation holds between the look at the names around and itself, and carries over to rules from
whose errors the reading may recover, too. -/
structure RecoveryCongruence (Q : ⦃α : Type⦄ → Rule α → Rule α → Prop)
    (N : ⦃α : Type⦄ → Rule α → Rule α → Prop := Q) : Prop extends Congruence Q N where
  isDeclared (name : String) : Q (isDeclared name) (isDeclared name)
  recovering {α : Type} {r r' : Rule α} (stops : Lexeme → Bool) (pastSemicolon : Bool) :
    Q r r' → Q (recovering stops pastSemicolon r) (recovering stops pastSemicolon r')

/-- Whether the setting recovers from errors. -/
def recovers : Rule Bool := do
  return (← read).recovers

/-- The relation holds between the rules that depend on the mode or record an error and themselves,
too. -/
structure GrammarCongruence (Q : ⦃α : Type⦄ → Rule α → Rule α → Prop)
    (N : ⦃α : Type⦄ → Rule α → Rule α → Prop := Q) : Prop extends RecoveryCongruence Q N where
  mode : Q recovers recovers
  report (e : SyntaxError) : Q (report e) (report e)

variable {Q N : ⦃α : Type⦄ → Rule α → Rule α → Prop}

/-- So many constructs may be opened on the one side, and so many on the other: as many, or more, if
the relation holds between the reading that opens too many and every other. -/
inductive Levels (Q : ⦃α : Type⦄ → Rule α → Rule α → Prop) : Nat → Nat → Prop
  | zero : Levels Q 0 0
  | spent (h : ∀ {α : Type} (r : Rule α), Q tooDeep r) (more : Nat) : Levels Q 0 more
  | succ {levels levels' : Nat} (h : Levels Q levels levels') : Levels Q (levels + 1) (levels' + 1)

theorem Levels.refl : ∀ levels, Levels Q levels levels
  | 0 => .zero
  | levels + 1 => .succ (.refl levels)

theorem Levels.of_le (h : ∀ {α : Type} (r : Rule α), Q tooDeep r) {levels levels' : Nat}
    (le : levels ≤ levels') : Levels Q levels levels' := by
  induction levels generalizing levels' with
  | zero => exact .spent h levels'
  | succ levels ih =>
    obtain ⟨more, rfl⟩ := Nat.exists_eq_add_of_le' le
    exact .succ (ih (Nat.le_add_left ..))

/-! ### Choices -/

section Steps

variable (h : Steps Q N)

theorem Steps.ite {α : Type} {c : Prop} [Decidable c] {r r' s s' : Rule α} (_ : Steps Q N)
    (hr : Q r r') (hs : Q s s') : Q (if c then r else s) (if c then r' else s') := by
  split
  · exact hr
  · exact hs

include h

theorem Steps.map {α β : Type} {r r' : Rule α} (f : α → β) (hr : Q r r') :
    Q (f <$> r) (f <$> r') := by
  rw [map_eq_pure_bind, map_eq_pure_bind]
  exact h.bind hr fun _ => h.pure _

/-- A choice between two rules, after which the reading goes on alike. -/
theorem Steps.choose {α β : Type} {c : Prop} [Decidable c] {r r' s s' : Rule α}
    {f f' : α → Rule β} (hr : Q r r') (hs : Q s s') (hf : ∀ a, Q (f a) (f' a)) :
    Q (if c then r >>= f else s >>= f) (if c then r' >>= f' else s' >>= f') :=
  h.ite (h.bind hr hf) (h.bind hs hf)

/-- A rule that runs under a condition only, after which the reading goes on. -/
theorem Steps.perhaps {α β : Type} {c : Prop} [Decidable c] {r r' : Rule α} {s s' : Rule β}
    (hr : Q r r') (hs : Q s s') :
    Q (if c then r >>= fun _ => s else s) (if c then r' >>= fun _ => s' else s') :=
  h.ite (h.bind hr fun _ => hs) hs

/-- A rule that ends the reading under a condition, after which the reading goes on. -/
theorem Steps.unless {β : Type} {c : Prop} [Decidable c] {r r' : Rule Unit} {f f' : Unit → Rule β}
    (hr : Q r r') (hf : ∀ a, Q (f a) (f' a)) :
    Q (if c then r >>= f else f ()) (if c then r' >>= f' else f' ()) :=
  h.ite (h.bind hr hf) (hf ())

/-- What follows on two rules that belong together, as a loop and the bound on it do. -/
theorem Steps.follow {α β γ : Type} {r r' : Rule α} {g g' : α → Rule β} {f f' : β → Rule γ}
    (hg : Q (r >>= g) (r' >>= g')) (hf : ∀ b, Q (f b) (f' b)) :
    Q (r >>= fun a => g a >>= f) (r' >>= fun a => g' a >>= f') := by
  rw [← bind_assoc, ← bind_assoc]
  exact h.bind hg hf

/-! ### Tokens and errors -/

theorem Steps.peek_rel : Q peek peek :=
  h.peekAt 0

theorem Steps.lexemeAt_rel (n : Nat) : Q (lexemeAt n) (lexemeAt n) := by
  unfold lexemeAt
  exact h.bind (h.peekAt n) fun t => h.pure _

theorem Steps.lexeme_rel : Q lexeme lexeme :=
  h.lexemeAt_rel 0

theorem Steps.sees_rel (t : Terminal) : Q (sees t) (sees t) := by
  unfold sees
  exact h.bind h.lexeme_rel fun l => h.pure _

theorem Steps.atEnd_rel : Q atEnd atEnd := by
  unfold atEnd
  exact h.bind h.lexeme_rel fun l => h.pure _

theorem Steps.accept_rel (t : Terminal) : Q (accept t) (accept t) := by
  unfold accept
  refine h.bind (h.sees_rel t) fun b => h.ite ?_ (h.pure _)
  exact h.bind h.advance fun _ => h.pure _

theorem Steps.fail_rel {α : Type} (e : SyntaxError) : Q (fail e : Rule α) (fail e) :=
  h.throw _

theorem Steps.unexpected_rel (expected : String) : Q (unexpected expected) (unexpected expected) := by
  unfold unexpected
  exact h.bind h.peek_rel fun t => h.pure _

theorem Steps.failExpecting_rel {α : Type} (expected : String) :
    Q (failExpecting expected : Rule α) (failExpecting expected) := by
  unfold failExpecting
  exact h.bind (h.unexpected_rel expected) fun e => h.fail_rel e

theorem Steps.failInvalid_rel {α : Type} (kind : SyntaxError.Kind) :
    Q (failInvalid kind : Rule α) (failInvalid kind) := by
  unfold failInvalid
  refine h.bind h.peek_rel fun t => ?_
  split
  all_goals exact h.fail_rel _

theorem Steps.expect_rel (t : Terminal) : Q (expect t) (expect t) := by
  unfold expect
  exact h.bind (h.sees_rel t) fun b => h.ite h.advance (h.failExpecting_rel _)

theorem Steps.expectClosing_rel (t : Terminal) (opener : Token) (kind : SyntaxError.Kind) :
    Q (expectClosing t opener kind) (expectClosing t opener kind) := by
  unfold expectClosing
  refine h.bind (h.sees_rel t) fun b => h.ite (h.bind h.advance fun _ => h.pure _) ?_
  exact h.bind h.atEnd_rel fun b => h.ite (h.fail_rel _) (h.failExpecting_rel _)

theorem Steps.expectSemicolon_rel : Q expectSemicolon expectSemicolon := by
  unfold expectSemicolon
  refine h.bind h.peek_rel fun t => ?_
  split
  · exact h.bind h.advance fun _ => h.pure _
  · exact h.failExpecting_rel _
  · exact h.failExpecting_rel _
  · exact h.bind h.lastStop fun n => h.fail_rel _

theorem Steps.expectName_rel (expected : String) : Q (expectName expected) (expectName expected) := by
  unfold expectName
  refine h.bind h.lexeme_rel fun l => ?_
  split
  · exact h.advance
  · exact h.failExpecting_rel _

theorem Steps.expectAnyName_rel (expected : String) :
    Q (expectAnyName expected) (expectAnyName expected) := by
  unfold expectAnyName
  refine h.bind h.lexeme_rel fun l => ?_
  split
  · exact h.advance
  · exact h.bind h.dialect fun d => h.ite h.advance (h.failExpecting_rel _)
  · exact h.failExpecting_rel _

theorem Steps.expectEnd_rel : Q expectEnd expectEnd := by
  unfold expectEnd
  exact h.bind h.atEnd_rel fun b => h.ite (h.failExpecting_rel _) (h.pure _)

/-! ### Bounds and nodes -/

theorem Steps.failLimit_rel {α : Type} (e : LimitError) : Q (failLimit e : Rule α) (failLimit e) :=
  h.throw _

theorem Steps.checkSize_rel (size : Nat) (span : Span) : Q (checkSize size span) (checkSize size span) :=
  h.checkLimit _ _ _

theorem Steps.spanFrom_rel (start : Span) : Q (spanFrom start) (spanFrom start) := by
  unfold spanFrom
  exact h.bind h.lastStop fun stop => h.pure _

theorem Steps.node_rel {α : Type} (start : Span) (build : Span → α) :
    Q (node start build) (node start build) := by
  unfold node
  refine h.bind (h.spanFrom_rel start) fun s => ?_
  exact h.bind (h.recordNode s) fun _ => h.pure _

/-! ### Loops over tokens -/

theorem Steps.consuming_rel {α : Type} {step step' : α → Rule (Option α)}
    (hs : ∀ a, Q (step a) (step' a)) (n : Nat) (a : α) :
    Q (consuming step n a) (consuming step' n a) := by
  induction n generalizing a with
  | zero => exact h.pure a
  | succ n ih =>
    unfold consuming
    refine h.bind (hs a) fun b => ?_
    split
    · exact ih _
    · exact h.pure _

theorem Steps.whileTokens_rel {α : Type} {step step' : α → Rule (Option α)}
    (hs : ∀ a, Q (step a) (step' a)) (a : α) : Q (whileTokens step a) (whileTokens step' a) := by
  unfold whileTokens
  exact h.bind h.tokensLeft fun ts => h.consuming_rel hs _ a

theorem Steps.mapM_rel {α β : Type} {f f' : α → Rule β} (hf : ∀ a, Q (f a) (f' a)) (xs : List α) :
    Q (xs.mapM f) (xs.mapM f') := by
  induction xs with
  | nil => exact h.pure []
  | cons x xs ih =>
    rw [List.mapM_cons, List.mapM_cons]
    refine h.bind (hf x) fun y => ?_
    exact h.bind ih fun ys => h.pure _

/-! ### Loops with a bound -/

theorem Steps.repeating_rel {α β γ : Type} {look look' : α → Rule (β ⊕ γ)}
    {step step' : α → γ → Rule (β ⊕ α)} (hlook : ∀ a, Q (look a) (look' a))
    (hstep : ∀ a c, Q (step a c) (step' a c)) (n : Nat) (a : α) :
    Q (repeating look step n a) (repeating look' step' n a) := by
  induction n generalizing a with
  | zero =>
    unfold repeating
    refine h.bind (hlook a) fun x => ?_
    cases x with
    | inl b => exact h.pure b
    | inr c => exact h.tooManyPasses
  | succ n ih =>
    unfold repeating
    refine h.bind (hlook a) fun x => ?_
    cases x with
    | inl b => exact h.pure b
    | inr c =>
      refine h.bind (hstep a c) fun y => ?_
      cases y with
      | inl b => exact h.pure b
      | inr a' => exact ih a'

theorem Steps.many_rel {α : Type} {more more' : Rule Bool} {item item' : Nat → Rule (List α)}
    (hmore : Q more more') (hitem : ∀ size, Q (item size) (item' size)) (n size : Nat) :
    Q (many more item n size) (many more' item' n size) := by
  induction n generalizing size with
  | zero =>
    unfold many
    exact h.bind hmore fun b => h.ite h.tooManyPasses (h.pure _)
  | succ n ih =>
    unfold many
    refine h.bind hmore fun b => h.ite ?_ (h.pure _)
    refine h.bind (hitem size) fun xs => ?_
    exact h.bind (ih _) fun ys => h.pure _

theorem Steps.listed_rel {α : Type} {more more' : Rule Bool} {item item' : Rule α} (spanOf : α → Span)
    (hmore : Q more more') (hitem : Q item item') (n size : Nat) :
    Q (listed more item spanOf n size) (listed more' item' spanOf n size) := by
  induction n generalizing size with
  | zero =>
    unfold listed
    exact h.bind hmore fun b => h.ite h.tooManyPasses (h.pure _)
  | succ n ih =>
    unfold listed
    refine h.bind hmore fun b => h.ite ?_ (h.pure _)
    refine h.bind hitem fun x => ?_
    refine h.bind (h.checkSize_rel _ _) fun _ => ?_
    refine h.bind (h.accept_rel _) fun b => h.ite ?_ (h.pure _)
    exact h.bind (ih _) fun xs => h.pure _

theorem Steps.commaTail_rel (hlimits : Q limits limits) {α : Type} {item item' : Rule α}
    (spanOf : α → Span) (hitem : Q item item') (room : Nat) :
    Q (commaTail item spanOf room) (commaTail item' spanOf room) := by
  induction room with
  | zero =>
    unfold commaTail
    refine h.bind (h.accept_rel _) fun b => h.ite ?_ (h.pure _)
    refine h.bind hitem fun x => ?_
    exact h.bind hlimits fun l => h.failLimit_rel _
  | succ room ih =>
    unfold commaTail
    refine h.bind (h.accept_rel _) fun b => h.ite ?_ (h.pure _)
    refine h.bind hitem fun x => ?_
    exact h.bind ih fun xs => h.pure _

/-- A relation that holds between the bounds on the reading and themselves carries over to
loops. -/
theorem Steps.congruence (hlimits : Q limits limits) : Congruence Q N := by
  have hpasses : Q passes passes := by
    unfold passes
    exact h.bind hlimits fun l => h.pure _
  refine ⟨h, ?_, ?_, ?_, ?_⟩
  · intro α β γ look look' step step' hlook hstep a
    exact h.bind hpasses fun n => h.repeating_rel hlook hstep n a
  · intro α more more' item item' hmore hitem size
    exact h.bind hpasses fun n => h.many_rel hmore hitem n size
  · intro α more more' item item' spanOf hmore hitem size
    exact h.bind hpasses fun n => h.listed_rel spanOf hmore hitem n size
  · intro α item item' spanOf hitem
    unfold commaList
    refine h.bind hitem fun x => ?_
    refine h.bind hlimits fun l => ?_
    exact h.bind (h.commaTail_rel hlimits spanOf hitem _) fun xs => h.pure _

end Steps

/-- Skipping tokens after an error is a loop like others. -/
theorem Congruence.skipTo_rel (h : Congruence Q N) (stops : Lexeme → Bool) (pastSemicolon : Bool) :
    Q (skipTo stops pastSemicolon) (skipTo stops pastSemicolon) := by
  unfold skipTo
  refine h.repeating (fun _ => ?_) (fun _ l => ?_) ()
  · exact h.bind h.lexeme_rel fun l => h.pure _
  · refine h.ite (h.bind h.advance fun _ => h.pure _) ?_
    exact h.ite (h.pure _) (h.bind h.advance fun _ => h.pure _)

end Plc.Grammar

/-
Preconditions and postconditions of rules.

`Triple P r Q` says what a successful run of a rule leaves behind: if `P` holds where the rule
begins and the rule gives `a`, then `Q a` holds where it ends.  A failed run says nothing.

* `Triple.bind`, `Triple.imp`, `Triple.post` — rules in a row, and weaker statements;
* `Triple.repeating`, `Triple.many`, `Triple.listed`, `Triple.commaList` — loops, from an invariant
  over the items read so far.
-/
import Plc.Proofs.Grammar.Run

namespace Plc.Grammar

variable {α β γ : Type}

/-- What is said about a place in a reading. -/
abbrev Assertion := Setting → Cursor → Prop

/-- If `P` holds where the rule begins and the rule gives `a`, `Q a` holds where it ends. -/
def Triple (P : Assertion) (r : Rule α) (Q : α → Assertion) : Prop :=
  ∀ ⦃s c a c'⦄, P s c → r s c = .ok a c' → Q a s c'

namespace Triple

variable {P P' : Assertion} {r : Rule α} {f : α → Rule β}

theorem bind {R : α → Assertion} {Q : β → Assertion} (hr : Triple P r R)
    (hf : ∀ a, Triple (R a) (f a) Q) : Triple P (r >>= f) Q := by
  intro s c b c' hc hrun
  obtain ⟨a, c₁, hfirst, hrest⟩ := bind_eq_ok_iff.1 hrun
  exact hf a (hr hc hfirst) hrest

theorem pure {a : α} {Q : α → Assertion} (h : ∀ s c, P s c → Q a s c) :
    Triple P (pure a) Q := by
  intro s c b c' hc hrun
  cases hrun
  exact h s c hc

theorem throw (f : Fault) {Q : α → Assertion} : Triple P (throw f : Rule α) Q := by
  intro s c b c' hc hrun
  cases hrun

theorem imp {Q : α → Assertion} (h : Triple P r Q) (hp : ∀ s c, P' s c → P s c) :
    Triple P' r Q :=
  fun s c _ _ hc hrun => h (hp s c hc) hrun

theorem post {Q Q' : α → Assertion} (h : Triple P r Q) (hq : ∀ a s c, Q a s c → Q' a s c) :
    Triple P r Q' :=
  fun s _ a c' hc hrun => hq a s c' (h hc hrun)

theorem map {R : α → Assertion} {Q : β → Assertion} {g : α → β} (h : Triple P r R)
    (hq : ∀ a s c, R a s c → Q (g a) s c) : Triple P (g <$> r) Q := by
  rw [map_eq_pure_bind]
  exact h.bind fun a => pure (hq a)

theorem ite {p : Prop} [Decidable p] {r' : Rule α} {Q : α → Assertion} (hr : p → Triple P r Q)
    (hr' : ¬p → Triple P r' Q) : Triple P (if p then r else r') Q := by
  split
  · next h => exact hr h
  · next h => exact hr' h

/-- What is known to exist may be named. -/
theorem ex {ι : Type} {P : ι → Assertion} {Q : α → Assertion} (h : ∀ i, Triple (P i) r Q) :
    Triple (fun s c => ∃ i, P i s c) r Q :=
  fun _ _ _ _ ⟨i, hc⟩ hrun => h i hc hrun

/-- A part that may be left out. -/
theorem optional {p : Prop} [Decidable p] {R : Option α → Assertion} {g : Option α → Rule β}
    {Q : β → Assertion} (hsome : p → Triple P r fun a => R (some a))
    (hnone : ¬p → ∀ s c, P s c → R none s c) (hg : ∀ o, Triple (R o) (g o) Q) :
    Triple P (if p then some <$> r >>= g else Pure.pure none >>= g) Q := by
  refine ite (fun h => ?_) fun h => ?_
  · rw [map_eq_pure_bind, bind_assoc]
    refine (hsome h).bind fun a => ?_
    rw [pure_bind]
    exact hg (some a)
  · rw [pure_bind]
    exact (hg none).imp (hnone h)

/-! ### Failures -/

theorem fail (e : SyntaxError) {Q : α → Assertion} : Triple P (Grammar.fail e : Rule α) Q :=
  throw _

theorem failLimit (e : LimitError) {Q : α → Assertion} :
    Triple P (Grammar.failLimit e : Rule α) Q :=
  throw _

/-- What ends with a failure gives nothing. -/
theorem bind_fails {Q : β → Assertion} (hf : ∀ a, Triple (fun _ _ => True) (f a) Q) :
    Triple P (r >>= f) Q :=
  bind (R := fun _ _ _ => True) (fun _ _ _ _ _ _ => trivial) hf

theorem failExpecting (expected : String) {Q : α → Assertion} :
    Triple P (Grammar.failExpecting expected : Rule α) Q :=
  bind_fails fun _ => fail _

theorem failInvalid (kind : SyntaxError.Kind) {Q : α → Assertion} :
    Triple P (Grammar.failInvalid kind : Rule α) Q := by
  refine bind_fails fun t => ?_
  split
  all_goals exact fail _

theorem tooManyPasses {Q : α → Assertion} : Triple P (Grammar.tooManyPasses : Rule α) Q :=
  bind_fails fun _ => bind_fails fun _ => failLimit _

theorem tooDeep {Q : α → Assertion} : Triple P (Grammar.tooDeep : Rule α) Q :=
  bind_fails fun _ => bind_fails fun _ => bind_fails fun _ => bind_fails fun _ => failLimit _

/-! ### Brackets -/

theorem bracket {before after : Cursor → Cursor} {Q : α → Assertion} (h : Triple P' r Q)
    (hp : ∀ s c, P s c → P' s (before c)) {Q' : α → Assertion}
    (hq : ∀ a s c, Q a s c → Q' a s (after c)) : Triple P (bracket before after r) Q' := by
  intro s c a c' hc hrun
  rw [bracket_apply] at hrun
  cases run : r s (before c) with
  | ok b c₁ =>
    rw [run] at hrun
    cases hrun
    exact hq _ _ _ (h (hp s c hc) run)
  | error e c₁ =>
    rw [run] at hrun
    cases hrun

/-! ### Loops -/

/-- A loop that keeps an invariant over its state. -/
theorem repeating {look : α → Rule (β ⊕ γ)} {step : α → γ → Rule (β ⊕ α)} {I : α → Assertion}
    {J : α → γ → Assertion} {Q : β → Assertion}
    (hlook : ∀ a, Triple (I a) (look a) (Sum.elim Q (J a)))
    (hstep : ∀ a x, Triple (J a x) (step a x) (Sum.elim Q I)) (n : Nat) (a : α) :
    Triple (I a) (repeating look step n a) Q := by
  -- The question and the step hand the invariant to each other, until one of them gives the result
  -- or the passes are over.
  induction n generalizing a with
  | zero =>
    unfold Grammar.repeating
    refine bind (hlook a) fun x => ?_
    cases x with
    | inl b => exact pure fun s c h => h
    | inr x => exact tooManyPasses
  | succ n ih =>
    unfold Grammar.repeating
    refine bind (hlook a) fun x => ?_
    cases x with
    | inl b => exact pure fun s c h => h
    | inr x =>
      refine bind (hstep a x) fun y => ?_
      cases y with
      | inl b => exact pure fun s c h => h
      | inr a' => exact ih a'

/-- A loop with an invariant over the items read so far, and with what is known where it ends. -/
theorem manyUntil {more : Rule Bool} {item : Nat → Rule (List α)} {I J K : List α → Assertion}
    (hmore : ∀ xs, Triple (I xs) more fun b => cond b (J xs) (K xs))
    (hitem : ∀ xs size, Triple (J xs) (item size) fun ys => I (xs ++ ys)) (n size : Nat)
    (xs : List α) : Triple (I xs) (many more item n size) fun ys => K (xs ++ ys) := by
  induction n generalizing size xs with
  | zero =>
    unfold Grammar.many
    refine bind (hmore xs) fun b => ?_
    cases b with
    | false => exact pure fun s c h => by rwa [List.append_nil]
    | true => exact tooManyPasses
  | succ n ih =>
    unfold Grammar.many
    refine bind (hmore xs) fun b => ?_
    cases b with
    | false => exact pure fun s c h => by rwa [List.append_nil]
    | true =>
      refine bind (hitem xs size) fun ys => bind (ih _ (xs ++ ys)) fun zs => pure fun s c h => ?_
      rwa [← List.append_assoc]

/-- A loop that keeps an invariant over the items read so far. -/
theorem many {more : Rule Bool} {item : Nat → Rule (List α)} {I J : List α → Assertion}
    (hmore : ∀ xs, Triple (I xs) more fun b => cond b (J xs) (I xs))
    (hitem : ∀ xs size, Triple (J xs) (item size) fun ys => I (xs ++ ys)) (n size : Nat)
    (xs : List α) : Triple (I xs) (Grammar.many more item n size) fun ys => I (xs ++ ys) :=
  manyUntil hmore hitem n size xs

variable {spanOf : α → Span} {item : Rule α}

/-- Items after commas, from an invariant over those read so far. -/
theorem commaTail {I J : List α → Assertion}
    (hcomma : ∀ xs, Triple (I xs) (accept Mark.comma) fun b => cond b (J xs) (I xs))
    (hitem : ∀ xs, Triple (J xs) item fun x => I (xs ++ [x])) (room : Nat) (xs : List α) :
    Triple (I xs) (commaTail item spanOf room) fun ys => I (xs ++ ys) := by
  induction room generalizing xs with
  | zero =>
    unfold Grammar.commaTail
    refine bind (hcomma xs) fun b => ?_
    cases b with
    | false => exact pure fun s c h => by rwa [List.append_nil]
    | true => exact bind (hitem xs) fun x => bind_fails fun _ => failLimit _
  | succ room ih =>
    unfold Grammar.commaTail
    refine bind (hcomma xs) fun b => ?_
    cases b with
    | false => exact pure fun s c h => by rwa [List.append_nil]
    | true =>
      refine bind (hitem xs) fun x => bind (ih (xs ++ [x])) fun ys => pure fun s c h => ?_
      rwa [List.append_assoc] at h

theorem commaList {I J : List α → Assertion}
    (hcomma : ∀ xs, Triple (I xs) (accept Mark.comma) fun b => cond b (J xs) (I xs))
    (hitem : ∀ xs, Triple (J xs) item fun x => I (xs ++ [x])) :
    Triple (J []) (commaList item spanOf) I := by
  refine bind (hitem []) fun x => bind (R := fun _ => I [x]) ?_ fun l => ?_
  · intro s c l c' hc hrun
    cases hrun
    exact hc
  · exact bind (commaTail hcomma hitem _ [x]) fun xs => pure fun s c h => h

theorem listed {more : Rule Bool} {I J K : List α → Assertion}
    (hmore : ∀ xs, Triple (J xs) more fun b => cond b (K xs) (I xs))
    (hcomma : ∀ xs, Triple (I xs) (accept Mark.comma) fun b => cond b (J xs) (I xs))
    (hsize : ∀ xs size span, Triple (I xs) (checkSize size span) fun _ => I xs)
    (hitem : ∀ xs, Triple (K xs) item fun x => I (xs ++ [x])) (n size : Nat) (xs : List α) :
    Triple (J xs) (listed more item spanOf n size) fun ys => I (xs ++ ys) := by
  -- `I` holds behind an item, `J` where an item may begin and `K` where one does.
  induction n generalizing size xs with
  | zero =>
    unfold Grammar.listed
    refine bind (hmore xs) fun b => ?_
    cases b with
    | false => exact pure fun s c h => by rwa [List.append_nil]
    | true => exact tooManyPasses
  | succ n ih =>
    unfold Grammar.listed
    refine bind (hmore xs) fun b => ?_
    cases b with
    | false => exact pure fun s c h => by rwa [List.append_nil]
    | true =>
      refine bind (hitem xs) fun x => bind (hsize _ _ _) fun _ => bind (hcomma _) fun b => ?_
      cases b with
      | false => exact pure fun s c h => h
      | true =>
        refine bind (ih _ (xs ++ [x])) fun ys => pure fun s c h => ?_
        rwa [List.append_assoc] at h

/-! ### Recovery -/

/-- A run that may be recovered from: either the rule gave a result, or it failed and the reading
went on. -/
theorem recovering {stops : Lexeme → Bool} {pastSemicolon : Bool} {Q : Option α → Assertion}
    (h : Triple P r fun a => Q (some a))
    (hnone : ∀ s c c', P s c → recovering stops pastSemicolon r s c = .ok none c' → Q none s c') :
    Triple P (recovering stops pastSemicolon r) Q := by
  intro s c b c' hc hrun
  cases b with
  | none => exact hnone s c c' hc hrun
  | some a =>
    refine h hc ?_
    unfold Grammar.recovering at hrun
    split at hrun
    · next run =>
      cases hrun
      exact run
    · split at hrun
      · split at hrun
        all_goals cases hrun
      · cases hrun
    · cases hrun

/-- A run that ends at the first error gives a result of the rule. -/
theorem strictly {stops : Lexeme → Bool} {pastSemicolon : Bool} {Q : Option α → Assertion}
    (strict : ∀ s c, P s c → s.recovers = false) (h : Triple P r fun a => Q (some a)) :
    Triple P (Grammar.recovering stops pastSemicolon r) Q := by
  refine recovering h fun s c c' hc hrun => ?_
  unfold Grammar.recovering at hrun
  split at hrun
  · cases hrun
  · rw [strict s c hc] at hrun
    cases hrun
  · cases hrun

end Triple

end Plc.Grammar

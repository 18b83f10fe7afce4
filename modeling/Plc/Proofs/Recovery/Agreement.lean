/-
Reading with and without recovery agree up to the first error.

A rule runs alike in both modes until the strict reading ends with a syntax error; the
lenient one then records that error, and errors once recorded stay.

* `Steady` — a rule that runs alike in both modes and records no error;
* `Grows` — a rule only adds to the errors recovered from;
* `Agrees` — what a strict and a lenient run have in common;
* `grows_recovery`, `agrees_recovery` — both carry over from the parts of a rule to the whole.
-/
import Plc.Proofs.Grammar.Course
import Plc.Proofs.Grammar.StmtCongruence

namespace Plc.Grammar

variable {α β : Type}

/-! ### The two modes -/

/-- The setting in which the first error ends the reading. -/
def Setting.strict (s : Setting) : Setting := { s with recovers := false }

/-- The setting in which errors are recovered from. -/
def Setting.lenient (s : Setting) : Setting := { s with recovers := true }

/-! ### Rules that do not depend on the mode -/

/-- The rule runs alike in both modes and leaves the errors recovered from as they are. -/
structure Steady (r : Rule α) : Prop where
  mode : ∀ (s : Setting) c, r s.strict c = r s.lenient c
  errors : ∀ s c, (cursorAfter (r s c)).errors = c.errors

namespace Steady

theorem bind {r : Rule α} {f : α → Rule β} (hr : Steady r) (hf : ∀ a, Steady (f a)) :
    Steady (r >>= f) := by
  constructor
  · intro s c
    rw [bind_apply, bind_apply, hr.mode]
    cases r s.lenient c with
    | ok a c' => exact (hf a).mode s c'
    | error e c' => rfl
  · intro s c
    rw [bind_apply]
    have first := hr.errors s c
    cases hrun : r s c with
    | ok a c' =>
      rw [hrun] at first
      exact ((hf a).errors s c').trans first
    | error e c' =>
      rw [hrun] at first
      exact first

theorem pure (a : α) : Steady (pure a : Rule α) :=
  ⟨fun _ _ => rfl, fun _ _ => rfl⟩

theorem throw (f : Fault) : Steady (throw f : Rule α) :=
  ⟨fun _ _ => rfl, fun _ _ => rfl⟩

theorem limits : Steady limits :=
  ⟨fun _ _ => rfl, fun _ _ => rfl⟩

theorem passes : Steady passes :=
  ⟨fun _ _ => rfl, fun _ _ => rfl⟩

theorem peekAt (n : Nat) : Steady (peekAt n) :=
  ⟨fun _ _ => rfl, fun _ _ => rfl⟩

theorem advance : Steady advance := by
  constructor
  · intro s c
    obtain ⟨rest, _, _, _, _, _, _⟩ := c
    cases rest <;> rfl
  · intro s c
    obtain ⟨rest, _, _, _, _, _, _⟩ := c
    cases rest <;> rfl

theorem takeWaiting : Steady takeWaiting := by
  constructor
  · intro s c
    rw [takeWaiting_apply, takeWaiting_apply]
  · intro s c
    rw [takeWaiting_apply]
    cases c.pragmas.lookup c.index <;> rfl

theorem checkLimit (kind : LimitKind) (value : Nat) (span : Span) :
    Steady (checkLimit kind value span) := by
  unfold Grammar.checkLimit
  refine limits.bind fun l => ?_
  cases l.check kind value span with
  | ok _ => exact pure ()
  | error e => exact throw _

theorem recordNode (span : Span) : Steady (recordNode span) := by
  have count : Steady (modify fun c => { c with usage := c.usage.addNode } : Rule Unit) :=
    ⟨fun _ _ => rfl, fun _ _ => rfl⟩
  have nodes : Steady (get : Rule Cursor) := ⟨fun _ _ => rfl, fun _ _ => rfl⟩
  unfold Grammar.recordNode
  refine count.bind fun _ => ?_
  exact nodes.bind fun c => checkLimit _ _ _

theorem tooManyPasses : Steady (tooManyPasses : Rule α) := by
  unfold Grammar.tooManyPasses
  refine limits.bind fun l => ?_
  exact (peekAt 0).bind fun t => throw _

theorem tooDeep : Steady (tooDeep : Rule α) := by
  have enter : Steady (modify Cursor.enter : Rule Unit) := ⟨fun _ _ => rfl, fun _ _ => rfl⟩
  have cursor : Steady (get : Rule Cursor) := ⟨fun _ _ => rfl, fun _ _ => rfl⟩
  unfold Grammar.tooDeep
  refine enter.bind fun _ => ?_
  refine limits.bind fun l => ?_
  refine cursor.bind fun c => ?_
  exact (peekAt 0).bind fun t => throw _

end Steady

/-- A relation that holds between steady rules and themselves need only carry over to rules in a
row and in brackets. -/
theorem Congruence.of_steady {Q : ⦃α : Type⦄ → Rule α → Rule α → Prop}
    (steady : ∀ {α : Type} {r : Rule α}, Steady r → Q r r)
    (bind : ∀ {α β : Type} {r r' : Rule α} {f f' : α → Rule β},
      Q r r' → (∀ a, Q (f a) (f' a)) → Q (r >>= f) (r' >>= f'))
    (bracket : ∀ {α : Type} {r r' : Rule α} {before after : Cursor → Cursor},
      (∀ c, (before c).errors = c.errors) → (∀ c, (after c).errors = c.errors) →
        Q r r' → Q (bracket before after r) (bracket before after r')) :
    Congruence Q := by
  refine Steps.congruence ?_ (steady Steady.limits)
  -- Only the two rules made of rules need an argument. The others neither read the errors nor write
  -- them.
  exact {
    pure := fun a => steady (.pure a)
    bind := bind
    throw := fun f => steady (.throw f)
    nested := bracket (fun _ => rfl) fun _ => rfl
    declaring := fun _ => bracket (fun _ => rfl) fun _ => rfl
    sourceText := steady ⟨fun _ _ => rfl, fun _ _ => rfl⟩
    dialect := steady ⟨fun _ _ => rfl, fun _ _ => rfl⟩
    lastStop := steady ⟨fun _ _ => rfl, fun _ _ => rfl⟩
    tokensLeft := steady ⟨fun _ _ => rfl, fun _ _ => rfl⟩
    peekAt := fun n => steady (.peekAt n)
    advance := steady .advance
    takeWaiting := steady .takeWaiting
    recordNode := fun s => steady (.recordNode s)
    checkLimit := fun k v s => steady (.checkLimit k v s)
    tooManyPasses := steady .tooManyPasses
    tooDeep := steady .tooDeep }

/-! ### Errors are only added -/

/-- The rule keeps the errors recovered from so far, and may add to them. -/
def Grows (r : Rule α) : Prop :=
  ∀ s c, c.errors <+: (cursorAfter (r s c)).errors

namespace Grows

theorem of_steady {r : Rule α} (h : Steady r) : Grows r := by
  intro s c
  exact (h.errors s c).symm ▸ List.prefix_rfl

/-- Where rules lead, errors once recorded stay. -/
theorem course : Course fun _ c c' => c.errors <+: c'.errors where
  trans := List.IsPrefix.trans
  aside _ _ _ _ _ := List.prefix_rfl
  count _ _ := List.prefix_rfl
  advance := of_steady .advance
  take _ _ _ _ := List.prefix_rfl
  note _ _ _ := List.prefix_append ..

theorem bind {r : Rule α} {f : α → Rule β} (hr : Grows r) (hf : ∀ a, Grows (f a)) :
    Grows (r >>= f) :=
  Course.bind course hr hf

theorem bracket {r : Rule α} {before after : Cursor → Cursor}
    (hb : ∀ c, (before c).errors = c.errors) (ha : ∀ c, (after c).errors = c.errors)
    (hr : Grows r) : Grows (bracket before after r) :=
  Course.bracket course (fun _ c => (hb c).symm ▸ List.prefix_rfl)
    (fun _ c => (ha c).symm ▸ List.prefix_rfl) hr

theorem recovering {r : Rule α} (stops : Lexeme → Bool) (pastSemicolon : Bool) (hr : Grows r) :
    Grows (recovering stops pastSemicolon r) :=
  Course.recovering course stops pastSemicolon hr

end Grows

theorem grows_congruence : Congruence fun _ _ (r : Rule _) => Grows r :=
  Course.congruence Grows.course

theorem grows_recovery : GrammarCongruence fun _ _ (r : Rule _) => Grows r :=
  Course.grammar Grows.course

/-- Going on after an error records it first. -/
theorem resumeAfter_records (e : SyntaxError) (start : Nat) (stops : Lexeme → Bool)
    (pastSemicolon : Bool) (s : Setting) (c : Cursor) :
    c.errors ++ [e] <+: (cursorAfter (resumeAfter e start stops pastSemicolon s c)).errors :=
  Course.resumed Grows.course start stops pastSemicolon s { c with errors := c.errors ++ [e] }

theorem grows_resumeAfter (e : SyntaxError) (start : Nat) (stops : Lexeme → Bool)
    (pastSemicolon : Bool) : Grows (resumeAfter e start stops pastSemicolon) :=
  Course.resumeAfter Grows.course e start stops pastSemicolon

/-! ### Strict and lenient runs -/

/-- The lenient run has recorded the error, or was ended by something that no reading recovers
from. -/
def Diverges (c : Cursor) (e : SyntaxError) (lenient : EStateM.Result Fault Cursor α) : Prop :=
  c.errors ++ [e] <+: (cursorAfter lenient).errors ∨
    ∃ f c', lenient = .error f c' ∧ ∀ e, f ≠ .grammar e

theorem Diverges.bind {r : Rule α} {f : α → Rule β} {s : Setting}
    {c₀ c : Cursor} {e : SyntaxError} (h : Diverges c₀ e (r s c)) (hf : ∀ a, Grows (f a)) :
    Diverges c₀ e ((r >>= f) s c) := by
  rw [bind_apply]
  obtain noted | ⟨fault, c', hrun, other⟩ := h
  · left
    cases hrun : r s c with
    | ok a c' =>
      rw [hrun] at noted
      exact noted.trans (hf a s c')
    | error _ c' =>
      rw [hrun] at noted
      exact noted
  · right
    rw [hrun]
    exact ⟨fault, c', rfl, other⟩

theorem Diverges.closing {after : Cursor → Cursor} {c : Cursor} {e : SyntaxError}
    {lenient : EStateM.Result Fault Cursor α} (ha : ∀ c, (after c).errors = c.errors)
    (h : Diverges c e lenient) : Diverges c e (closing after lenient) := by
  obtain noted | ⟨f, c', rfl, other⟩ := h
  · left
    rwa [cursorAfter_closing, ha]
  · exact .inr ⟨f, after c', rfl, other⟩

/-- How a strict and a lenient run from the same cursor may end. -/
inductive AgreesAt (c : Cursor) :
    EStateM.Result Fault Cursor α → EStateM.Result Fault Cursor α → Prop
  | ok {a : α} {c' : Cursor} (same : c'.errors = c.errors) : AgreesAt c (.ok a c') (.ok a c')
  | error {f : Fault} {c' : Cursor} (same : c'.errors = c.errors) :
      AgreesAt c (.error f c') (.error f c')
  | diverged {e : SyntaxError} {c' : Cursor} {lenient : EStateM.Result Fault Cursor α}
      (h : Diverges c e lenient) : AgreesAt c (.error (.grammar e) c') lenient

theorem AgreesAt.of_errors_eq {c c' : Cursor} {strict lenient : EStateM.Result Fault Cursor α}
    (same : c'.errors = c.errors) (h : AgreesAt c' strict lenient) : AgreesAt c strict lenient := by
  cases h with
  | ok h => exact .ok (h.trans same)
  | error h => exact .error (h.trans same)
  | diverged h =>
    rw [Diverges, same] at h
    exact .diverged h

theorem AgreesAt.closing {after : Cursor → Cursor} {c : Cursor}
    {strict lenient : EStateM.Result Fault Cursor α} (ha : ∀ c, (after c).errors = c.errors)
    (h : AgreesAt c strict lenient) :
    AgreesAt c (closing after strict) (closing after lenient) := by
  cases h with
  | ok same => exact .ok ((ha _).trans same)
  | error same => exact .error ((ha _).trans same)
  | diverged h => exact .diverged (h.closing ha)

/-- The strict runs of the one rule and the lenient runs of the other agree. -/
structure Agrees (r r' : Rule α) : Prop where
  grows : Grows r'
  runs : ∀ (s : Setting) c, AgreesAt c (r s.strict c) (r' s.lenient c)

namespace Agrees

theorem of_steady {r : Rule α} (h : Steady r) : Agrees r r := by
  refine ⟨.of_steady h, fun s c => ?_⟩
  have same := h.errors s.lenient c
  rw [h.mode]
  cases hrun : r s.lenient c with
  | ok a c' =>
    rw [hrun] at same
    exact .ok same
  | error f c' =>
    rw [hrun] at same
    exact .error same

/-- Runs that agree go on with rules that agree. -/
theorem bind_runs {r r' : Rule α} {f f' : α → Rule β} {s : Setting} {c : Cursor}
    (h : AgreesAt c (r s.strict c) (r' s.lenient c)) (hf : ∀ a, Agrees (f a) (f' a)) :
    AgreesAt c ((r >>= f) s.strict c) ((r' >>= f') s.lenient c) := by
  -- A lenient run that has diverged does not come back: its errors only grow.
  have on {e : SyntaxError} (h : Diverges c e (r' s.lenient c)) :
      Diverges c e ((r' >>= f') s.lenient c) := h.bind fun a => (hf a).grows
  rw [bind_apply] at on ⊢
  rw [bind_apply]
  revert h on
  generalize r s.strict c = strict
  generalize r' s.lenient c = lenient
  intro h on
  cases h with
  | @ok a c' same => exact ((hf a).runs s c').of_errors_eq same
  | error same => exact .error same
  | diverged h => exact .diverged (on h)

theorem bind {r r' : Rule α} {f f' : α → Rule β} (hr : Agrees r r')
    (hf : ∀ a, Agrees (f a) (f' a)) : Agrees (r >>= f) (r' >>= f') :=
  ⟨hr.grows.bind fun a => (hf a).grows, fun s c => bind_runs (hr.runs s c) hf⟩

theorem bracket {r r' : Rule α} {before after : Cursor → Cursor}
    (hb : ∀ c, (before c).errors = c.errors) (ha : ∀ c, (after c).errors = c.errors)
    (hr : Agrees r r') : Agrees (bracket before after r) (bracket before after r') := by
  refine ⟨hr.grows.bracket hb ha, fun s c => ?_⟩
  rw [bracket_apply, bracket_apply]
  exact ((hr.runs s (before c)).of_errors_eq (hb c)).closing ha

theorem recovering {r r' : Rule α} (stops : Lexeme → Bool) (pastSemicolon : Bool)
    (hr : Agrees r r') :
    Agrees (recovering stops pastSemicolon r) (recovering stops pastSemicolon r') := by
  refine ⟨hr.grows.recovering stops pastSemicolon, fun s c => ?_⟩
  have inner := hr.runs s c
  have grows := hr.grows s.lenient c
  unfold Grammar.recovering
  revert inner grows
  generalize r s.strict c = strict
  generalize r' s.lenient c = lenient
  intro inner grows
  cases inner with
  | ok same => exact .ok same
  -- The strict run ends at the error that the lenient run records before it goes on.
  | @error f c' same =>
    cases f with
    | grammar e =>
      have noted := resumeAfter_records e c.index stops pastSemicolon s.lenient c'
      rw [same] at noted
      refine .diverged (.inl ?_)
      dsimp only
      cases hon : resumeAfter e c.index stops pastSemicolon s.lenient c' with
      | ok _ c'' | error _ c'' =>
        rw [hon] at noted
        exact noted
    | limit _ | unreadableDigits | infiniteDuration | endless => exact .error same
  | @diverged e c' _ h =>
    refine .diverged ?_
    obtain noted | ⟨f, c'', rfl, other⟩ := h
    · left
      cases lenient with
      | ok a c'' => exact noted
      | error f c'' =>
        cases f with
        | grammar e' =>
          have on := grows_resumeAfter e' c.index stops pastSemicolon s.lenient c''
          dsimp only
          cases hon : resumeAfter e' c.index stops pastSemicolon s.lenient c'' with
          | ok _ _ | error _ _ =>
            rw [hon] at on
            exact noted.trans on
        | limit _ | unreadableDigits | infiniteDuration | endless => exact noted
    · right
      cases f with
      | grammar e' => exact absurd rfl (other e')
      | limit _ | unreadableDigits | infiniteDuration | endless => exact ⟨_, c'', rfl, other⟩

end Agrees

theorem agrees_recovery : RecoveryCongruence fun _ (r r' : Rule _) => Agrees r r' :=
  { Congruence.of_steady (Q := fun _ r r' => Agrees r r') .of_steady .bind .bracket with
    isDeclared := fun _ => .of_steady ⟨fun _ _ => rfl, fun _ _ => rfl⟩
    recovering := .recovering }

end Plc.Grammar

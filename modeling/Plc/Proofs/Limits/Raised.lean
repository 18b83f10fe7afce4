/-
Larger limits change no outcome.

The cursor never records the limits: a bound is only ever compared with a counter, and a
bound that is passed ends the reading, recovering or not.  So a run that ends in any other
way ends in the same way under larger limits.

* `Stays` — a rule whose settled runs another rule repeats under larger limits;
* `stays` — this carries over from the parts of a rule to the whole, through loops that may make
  more passes and constructs that may nest deeper;
* `Reading.raised_eq` — what follows for whole texts.
-/
import Plc.Proofs.Grammar.Run
import Plc.Proofs.Grammar.DeclCongruence

namespace Plc

namespace Grammar

variable {α β : Type}

/-- The setting with other limits. -/
def Setting.raised (s : Setting) (m : Limits) : Setting := { s with limits := m }

/-- Where a run of the first rule is settled, the second rule runs alike under larger limits. -/
def Stays (r r' : Rule α) : Prop :=
  ∀ (s : Setting) (m : Limits) c, s.limits.Le m → Settled (r s c) → r' (s.raised m) c = r s c

namespace Stays

variable {r r' : Rule α}

/-- A rule that does not look at the limits. -/
theorem of_same (h : ∀ (s : Setting) m c, r (s.raised m) c = r s c) : Stays r r :=
  fun s m c _ _ => h s m c

/-- A rule that a bound always ends. -/
theorem of_exceeds (h : ∀ s c, ∃ e c', r s c = .error (.limit e) c') : Stays r r' := by
  intro s m c _ settled
  obtain ⟨e, c', exceeds⟩ := h s c
  exact absurd exceeds (settled e c')

theorem bind {f f' : α → Rule β} (hr : Stays r r') (hf : ∀ a, Stays (f a) (f' a)) :
    Stays (r >>= f) (r' >>= f') := by
  intro s m c le settled
  have first := hr s m c le settled.of_bind
  rw [bind_apply] at settled
  rw [bind_apply, bind_apply, first]
  cases hrun : r s c with
  | ok a c' =>
    rw [hrun] at settled
    exact hf a s m c' le settled
  | error f c' => rfl

theorem pure (a : α) : Stays (pure a : Rule α) (pure a) :=
  .of_same fun _ _ _ => rfl

theorem throw (f : Fault) : Stays (throw f : Rule α) (throw f) :=
  .of_same fun _ _ _ => rfl

theorem bracket {before after : Cursor → Cursor} (hr : Stays r r') :
    Stays (bracket before after r) (bracket before after r') := by
  intro s m c le settled
  rw [bracket_apply] at settled
  rw [bracket_apply, bracket_apply, hr s m (before c) le settled.of_closing]

theorem advance : Stays advance advance := by
  refine .of_same fun s m c => ?_
  obtain ⟨rest, _, _, _, _, _, _⟩ := c
  cases rest <;> rfl

theorem takeWaiting : Stays takeWaiting takeWaiting :=
  .of_same fun s m c => by rw [takeWaiting_apply, takeWaiting_apply]

/-- A value within its bound is within a larger one. -/
theorem checkLimit (kind : LimitKind) (value : Nat) (span : Span) :
    Stays (checkLimit kind value span) (checkLimit kind value span) := by
  intro s m c le settled
  rw [checkLimit_apply] at settled
  rw [checkLimit_apply, checkLimit_apply]
  cases h : s.limits.check kind value span with
  | ok _ => rw [show (s.raised m).limits.check kind value span = .ok () from Limits.check_mono le h]
  | error e =>
    rw [h] at settled
    exact absurd rfl (settled e c)

theorem recordNode (span : Span) : Stays (recordNode span) (recordNode span) := by
  have count : Stays (modify fun c => { c with usage := c.usage.addNode } : Rule Unit)
      (modify fun c => { c with usage := c.usage.addNode }) := .of_same fun _ _ _ => rfl
  have nodes : Stays (get : Rule Cursor) get := .of_same fun _ _ _ => rfl
  unfold Grammar.recordNode
  refine count.bind fun _ => ?_
  exact nodes.bind fun c => checkLimit _ _ _

theorem tooManyPasses : Stays (tooManyPasses : Rule α) r' :=
  .of_exceeds fun _ c => ⟨_, c, rfl⟩

theorem tooDeep : Stays (tooDeep : Rule α) r' :=
  .of_exceeds fun _ c => ⟨_, c.enter, rfl⟩

end Stays

/-- What holds of rules that do not look at the bounds on loops. -/
theorem stays_steps : Steps fun _ (r r' : Rule _) => Stays r r' where
  pure := .pure
  bind := .bind
  throw := .throw
  nested := .bracket
  declaring := fun _ => .bracket
  sourceText := .of_same fun _ _ _ => rfl
  dialect := .of_same fun _ _ _ => rfl
  lastStop := .of_same fun _ _ _ => rfl
  tokensLeft := .of_same fun _ _ _ => rfl
  peekAt := fun _ => .of_same fun _ _ _ => rfl
  advance := .advance
  takeWaiting := .takeWaiting
  recordNode := .recordNode
  checkLimit := .checkLimit
  tooManyPasses := .tooManyPasses
  tooDeep := .tooDeep

/-! ### Loops -/

namespace Stays

/-- A loop that may make more passes. -/
theorem repeating {α β γ : Type} {look look' : α → Rule (β ⊕ γ)} {step step' : α → γ → Rule (β ⊕ α)}
    (hlook : ∀ a, Stays (look a) (look' a)) (hstep : ∀ a c, Stays (step a c) (step' a c))
    {n n' : Nat} (le : n ≤ n') (a : α) :
    Stays (repeating look step n a) (repeating look' step' n' a) := by
  -- Induction on the smaller bound; the larger one always has a pass to spare for it.
  induction n generalizing n' a with
  | zero =>
    unfold Grammar.repeating
    refine (hlook a).bind fun x => ?_
    cases x with
    | inl b => exact .pure b
    | inr c => exact .tooManyPasses
  | succ n ih =>
    obtain ⟨more, rfl⟩ := Nat.exists_eq_add_of_le' le
    rw [Grammar.repeating, ← Nat.add_assoc, Grammar.repeating]
    refine (hlook a).bind fun x => ?_
    cases x with
    | inl b => exact .pure b
    | inr c =>
      refine (hstep a c).bind fun y => ?_
      cases y with
      | inl b => exact .pure b
      | inr a' => exact ih (Nat.le_add_left ..) a'

theorem many {α : Type} {more more' : Rule Bool} {item item' : Nat → Rule (List α)}
    (hmore : Stays more more') (hitem : ∀ size, Stays (item size) (item' size)) {n n' : Nat}
    (le : n ≤ n') (size : Nat) : Stays (many more item n size) (many more' item' n' size) := by
  induction n generalizing n' size with
  | zero =>
    unfold Grammar.many
    exact hmore.bind fun b => stays_steps.ite .tooManyPasses (.pure _)
  | succ n ih =>
    obtain ⟨extra, rfl⟩ := Nat.exists_eq_add_of_le' le
    rw [Grammar.many, ← Nat.add_assoc, Grammar.many]
    refine hmore.bind fun b => stays_steps.ite ?_ (.pure _)
    refine (hitem size).bind fun xs => ?_
    exact (ih (Nat.le_add_left ..) _).bind fun ys => .pure _

theorem listed {α : Type} {more more' : Rule Bool} {item item' : Rule α} (spanOf : α → Span)
    (hmore : Stays more more') (hitem : Stays item item') {n n' : Nat} (le : n ≤ n') (size : Nat) :
    Stays (listed more item spanOf n size) (listed more' item' spanOf n' size) := by
  induction n generalizing n' size with
  | zero =>
    unfold Grammar.listed
    exact hmore.bind fun b => stays_steps.ite .tooManyPasses (.pure _)
  | succ n ih =>
    obtain ⟨extra, rfl⟩ := Nat.exists_eq_add_of_le' le
    rw [Grammar.listed, ← Nat.add_assoc, Grammar.listed]
    refine hmore.bind fun b => stays_steps.ite ?_ (.pure _)
    refine hitem.bind fun x => ?_
    refine Stays.bind (stays_steps.checkSize_rel _ _) fun _ => ?_
    refine Stays.bind (stays_steps.accept_rel _) fun b => stays_steps.ite ?_ (.pure _)
    exact (ih (Nat.le_add_left ..) _).bind fun xs => .pure _

/-- A list with more room. -/
theorem commaTail {α : Type} {item item' : Rule α} (spanOf : α → Span) (hitem : Stays item item')
    {room room' : Nat} (le : room ≤ room') :
    Stays (commaTail item spanOf room) (commaTail item' spanOf room') := by
  induction room generalizing room' with
  | zero =>
    unfold Grammar.commaTail
    refine Stays.bind (stays_steps.accept_rel _) fun b => stays_steps.ite ?_ (.pure _)
    refine hitem.bind fun x => ?_
    exact .of_exceeds fun _ c => ⟨_, c, rfl⟩
  | succ room ih =>
    obtain ⟨extra, rfl⟩ := Nat.exists_eq_add_of_le' le
    rw [Grammar.commaTail, ← Nat.add_assoc, Grammar.commaTail]
    refine Stays.bind (stays_steps.accept_rel _) fun b => stays_steps.ite ?_ (.pure _)
    refine hitem.bind fun x => ?_
    exact (ih (Nat.le_add_left ..)).bind fun xs => .pure _

/-- What is read with a bound that is taken from the limits. -/
theorem bounded {r r' : Nat → Rule α} {bound : Limits → Nat}
    (mono : ∀ {l m : Limits}, l.Le m → bound l ≤ bound m)
    (h : ∀ {n n'}, n ≤ n' → Stays (r n) (r' n')) :
    Stays (limits >>= fun l => r (bound l)) (limits >>= fun l => r' (bound l)) :=
  fun s m c le settled => h (mono le) s m c le settled

end Stays

theorem passes_mono {l m : Limits} (h : l.Le m) : l.maxIterations ≤ m.maxIterations :=
  h .iterations

theorem stays_congruence : Congruence fun _ (r r' : Rule _) => Stays r r' :=
  { stays_steps with
    repeating := fun hlook hstep a =>
      .bounded passes_mono fun le => .repeating hlook hstep le a
    many := fun hmore hitem size => .bounded passes_mono fun le => .many hmore hitem le size
    listed := fun spanOf hmore hitem size =>
      .bounded passes_mono fun le => .listed spanOf hmore hitem le size
    commaList := fun spanOf hitem => hitem.bind fun x =>
      @Stays.bounded _ _ _ (fun l => l.maxCollectionSize - 1)
        (fun le => Nat.sub_le_sub_right (le .collectionSize) 1)
        fun le => (Stays.commaTail spanOf hitem le).bind fun xs => .pure (x :: xs) }

/-! ### Recovery -/

theorem stays_resumeAfter (e : SyntaxError) (start : Nat) (stops : Lexeme → Bool)
    (pastSemicolon : Bool) :
    Stays (resumeAfter e start stops pastSemicolon) (resumeAfter e start stops pastSemicolon) := by
  have cursor : Stays (get : Rule Cursor) get := .of_same fun _ _ _ => rfl
  have note : Stays (report e) (report e) := .of_same fun _ _ _ => rfl
  -- What is skipped after an error is found by looking at tokens, in passes that may be too many.
  unfold resumeAfter
  refine note.bind fun _ => ?_
  refine Stays.bind (stays_congruence.skipTo_rel stops pastSemicolon) fun _ => ?_
  refine cursor.bind fun c => Stays.bind stays_steps.atEnd_rel fun b => stays_steps.ite ?_ (.pure _)
  exact Stays.advance.bind fun _ => .pure _

theorem Stays.recovering {r r' : Rule α} (stops : Lexeme → Bool) (pastSemicolon : Bool)
    (hr : Stays r r') :
    Stays (recovering stops pastSemicolon r) (recovering stops pastSemicolon r') := by
  intro s m c le settled
  have inner := hr s m c le
  unfold Grammar.recovering at settled ⊢
  cases hrun : r s c with
  | ok a c' =>
    rw [hrun] at inner
    rw [inner (.ok a c')]
  | error f c' =>
    rw [hrun] at inner settled
    cases f with
    | limit _ | unreadableDigits | infiniteDuration | endless => rw [inner settled.of_error]
    | grammar e =>
      rw [inner (.grammar e c')]
      -- the mode is the same, and what is skipped is
      have on := stays_resumeAfter e c.index stops pastSemicolon s m c' le
      dsimp only at settled ⊢
      cases hmode : s.recovers with
      | false =>
        rw [show (s.raised m).recovers = false from hmode]
        rfl
      | true =>
        rw [hmode] at settled
        rw [show (s.raised m).recovers = true from hmode]
        cases hon : resumeAfter e c.index stops pastSemicolon s c' with
        | ok u c'' =>
          rw [hon] at on
          rw [on (.ok u c'')]
        | error f c'' =>
          rw [hon] at on settled
          rw [on settled.of_error]

/-- Every rule of the grammar repeats its settled runs under larger limits. -/
theorem stays : GrammarCongruence fun _ (r r' : Rule _) => Stays r r' :=
  { stays_congruence with
    isDeclared := fun _ => .of_same fun _ _ _ => rfl
    recovering := .recovering
    mode := .of_same fun _ _ _ => rfl
    report := fun _ => .of_same fun _ _ _ => rfl }

theorem Stays.levels {l m : Limits} (le : l.Le m) :
    Levels (fun _ (r r' : Rule _) => Stays r r') l.maxDepth m.maxDepth :=
  .of_le (fun _ => .tooDeep) (le .depth)

/-! ### Whole texts -/

/-- The tokens of a text are the same under larger limits. -/
theorem tokensWithin_mono {l m : Limits} (le : l.Le m) (d : Dialect) (source : List Char)
    (settled : ∀ e, tokensWithin l d source ≠ .error (.limit e)) :
    tokensWithin m d source = tokensWithin l d source := by
  unfold tokensWithin at settled ⊢
  cases size : l.check .inputSize (utf8Size source) with
  | error e =>
    rw [size] at settled
    exact absurd rfl (settled e)
  | ok _ =>
    rw [size] at settled
    rw [Limits.check_mono le size]
    dsimp only at settled ⊢
    cases left : (scan d source).1.drop l.maxIterations with
    | cons t ts =>
      rw [left] at settled
      exact absurd rfl (settled _)
    | nil =>
      -- Nothing is left past the smaller bound, and so nothing past the larger one.
      have none : (scan d source).1.drop m.maxIterations = [] := by
        rw [List.drop_eq_nil_iff] at left ⊢
        exact Nat.le_trans left (le .iterations)
      rw [none]

/-- A whole text is read alike under larger limits, unless a bound ends the reading. -/
theorem run_mono {r r' : Rule α} (hr : Stays r r') {l m : Limits} (le : l.Le m) (source : List Char)
    (d : Dialect) (recovers : Bool) (settled : ∀ e, run r source l d recovers ≠ .error (.limit e)) :
    run r' source m d recovers = run r source l d recovers := by
  unfold run at settled ⊢
  have same := tokensWithin_mono le d source
  cases cut : tokensWithin l d source with
  | error f =>
    rw [cut] at same settled
    rw [same fun e he => settled e (by rw [Except.error.inj he])]
  | ok ts =>
    rw [cut] at same settled
    rw [same nofun]
    dsimp only at settled ⊢
    -- The settings differ in their limits only, and the cursors before the first token not at all.
    have runs := hr ⟨source, d, l, recovers, ts.getLastD (Scanner.finish source.length)⟩ m
      (.before ts) le
    refine congrArg outcome (runs fun e c ends => ?_)
    rw [ends] at settled
    exact settled e rfl

end Grammar

namespace Reading

open Grammar

/-- The same text under other limits. -/
def raised (r : Reading) (m : Limits) : Reading := { r with limits := m }

/-- The reading has a result, or was ended by something other than a bound. -/
def Settled (outcome : Except Fault α) : Prop :=
  ∀ e, outcome ≠ .error (.limit e)

instance (outcome : Except Fault α) : Decidable (Settled outcome) :=
  match outcome with
  | .error (.limit e) => isFalse fun settled => settled e rfl
  | .error (.grammar _) | .error .unreadableDigits | .error .infiniteDuration | .error .endless
  | .ok _ => isTrue nofun

variable {r : Reading} {m : Limits} {rule : Nat → Rule α}

theorem leniently_raised (le : r.limits.Le m)
    (hr : Stays (rule r.limits.maxDepth) (rule m.maxDepth)) (settled : Settled (r.leniently rule)) :
    (r.raised m).leniently rule = r.leniently rule :=
  run_mono hr le r.source r.dialect true settled

theorem strictly_raised (le : r.limits.Le m)
    (hr : Stays (rule r.limits.maxDepth) (rule m.maxDepth)) (settled : Settled (r.strictly rule)) :
    (r.raised m).strictly rule = r.strictly rule := by
  refine congrArg (Except.map (·.1)) (run_mono hr le r.source r.dialect false fun e he => ?_)
  refine settled e ?_
  unfold strictly
  rw [he]
  rfl

theorem statementsRecovering_raised (le : r.limits.Le m) (declared : List String)
    (settled : Settled (r.statementsRecovering declared)) :
    (r.raised m).statementsRecovering declared = r.statementsRecovering declared :=
  leniently_raised le (stays.allStatements_rel (Stays.levels le) declared) settled

theorem unitRecovering_raised (le : r.limits.Le m) (settled : Settled r.unitRecovering) :
    (r.raised m).unitRecovering = r.unitRecovering :=
  leniently_raised le (stays.compilationUnit_rel (Stays.levels le)) settled

/-- Limits only cut off.  A text that is read under some limits to a result, or to an error that is
no passed bound, is read under larger limits to the same result and the same recovered errors, or
to the same error. -/
theorem raised_eq (r : Reading) {m : Limits} (le : r.limits.Le m) (declared : List String) :
    (Settled r.expression → (r.raised m).expression = r.expression) ∧
      (Settled (r.statements declared) →
        (r.raised m).statements declared = r.statements declared) ∧
      (Settled r.unit → (r.raised m).unit = r.unit) ∧
      (Settled (r.statementsRecovering declared) →
        (r.raised m).statementsRecovering declared = r.statementsRecovering declared) ∧
      (Settled r.unitRecovering → (r.raised m).unitRecovering = r.unitRecovering) := by
  have deeper := Stays.levels le
  have expression : Stays (whole Grammar.expression r.limits.maxDepth)
      (whole Grammar.expression m.maxDepth) :=
    Stays.bind (stays.expression_rel deeper) fun e =>
      Stays.bind stays.expectEnd_rel fun _ => .pure e
  have statements := stays.allStatements_rel deeper declared
  have units := stays.compilationUnit_rel deeper
  exact ⟨strictly_raised le expression, strictly_raised le statements, strictly_raised le units,
    statementsRecovering_raised le declared, unitRecovering_raised le⟩

/-- Two statements, the first of which misses an operand. -/
def brokenText : Reading := { source := "a := 1 +; b := (2);".toList, limits := .strict }

/-- The broken text gives the same errors, and the same statement around them, under the ordinary
limits. -/
theorem raised_eq_broken : brokenText.limits.Le .balanced ∧
    (Settled brokenText.expression ∧ Settled (brokenText.statements []) ∧ Settled brokenText.unit ∧
      Settled (brokenText.statementsRecovering []) ∧ Settled brokenText.unitRecovering) ∧
    (brokenText.raised .balanced).expression = brokenText.expression ∧
    (brokenText.raised .balanced).statements [] = brokenText.statements [] ∧
    (brokenText.raised .balanced).unit = brokenText.unit ∧
    (brokenText.raised .balanced).statementsRecovering [] = brokenText.statementsRecovering [] ∧
    (brokenText.raised .balanced).unitRecovering = brokenText.unitRecovering := by
  have le : brokenText.limits.Le .balanced := by
    intro kind
    cases kind <;> decide
  have settled : Settled brokenText.expression ∧ Settled (brokenText.statements []) ∧
      Settled brokenText.unit ∧ Settled (brokenText.statementsRecovering []) ∧
      Settled brokenText.unitRecovering := by decide +kernel
  obtain ⟨first, second, third, fourth, fifth⟩ := settled
  obtain ⟨expression, statements, unit, recovering, units⟩ := raised_eq brokenText le []
  exact ⟨le, ⟨first, second, third, fourth, fifth⟩, expression first, statements second, unit third,
    recovering fourth, units fifth⟩

end Reading

end Plc

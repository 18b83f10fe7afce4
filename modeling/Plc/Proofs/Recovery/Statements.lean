/-
Reading bodies and statements with and without recovery.

After the statements of a body, the lenient reading reports a stray token and goes on,
while the strict one leaves it to the rule that follows, which must fail there.

* `Halts` — how strict and lenient runs of a body agree;
* `Halts.bind` — a body and a rule that fails at a stray token agree as other rules do;
* `agrees_allStatements` — strict and lenient runs of the rule for a bare text agree;
* `Reading.strictly_leniently` — so do readings of a whole text with any rule that agrees;
* `Reading.statements_recovering` — statements in particular.
-/
import Plc.Proofs.Recovery.Agreement
import Plc.Reading

namespace Plc.Grammar

variable {α β : Type} {ends : List Keyword}

/-! ### Stray tokens -/

/-- The error about a stray token. -/
def strayError (ends : List Keyword) (t : Token) : SyntaxError :=
  unexpectedToken t (some (describeEnds ends))

/-- How a strict and a lenient run of a body may end: as other rules do, away from stray tokens,
or at a stray token, which the lenient run has reported. -/
inductive HaltsAt (ends : List Keyword) (s : Setting) (c : Cursor) :
    EStateM.Result Fault Cursor α → EStateM.Result Fault Cursor α → Prop
  | clear {strict lenient : EStateM.Result Fault Cursor α} (h : AgreesAt c strict lenient)
      (clear : ∀ a c', strict = .ok a c' → isStray ends (s.next c').lexeme = false) :
      HaltsAt ends s c strict lenient
  | stray {a : α} {c' : Cursor} {lenient : EStateM.Result Fault Cursor α}
      (stray : isStray ends (s.next c').lexeme = true)
      (h : Diverges c (strayError ends (s.next c')) lenient) : HaltsAt ends s c (.ok a c') lenient

/-- The strict runs of the one rule for a body and the lenient runs of the other agree. -/
structure Halts (ends : List Keyword) (r r' : Rule α) : Prop where
  grows : Grows r'
  runs : ∀ (s : Setting) c, HaltsAt ends s c (r s.strict c) (r' s.lenient c)

/-- A rule that fails at a stray token with the error about it. -/
def Refuses (ends : List Keyword) (k : Rule α) : Prop :=
  ∀ (s : Setting) c, isStray ends (s.next c).lexeme = true →
    ∃ c', k s.strict c = .error (.grammar (strayError ends (s.next c))) c'

namespace Halts

theorem bind {r r' : Rule α} {k k' : α → Rule β} (hr : Halts ends r r')
    (hk : ∀ a, Agrees (k a) (k' a)) (refuses : ∀ a, Refuses ends (k a)) :
    Agrees (r >>= k) (r' >>= k') := by
  refine ⟨hr.grows.bind fun a => (hk a).grows, fun s c => ?_⟩
  have first := hr.runs s c
  cases hrun : r s.strict c with
  | error f c' =>
    rw [hrun] at first
    cases first with
    | clear h _ =>
      rw [← hrun] at h
      exact Agrees.bind_runs h hk
  | ok a c' =>
    rw [hrun] at first
    cases first with
    | clear h _ =>
      rw [← hrun] at h
      exact Agrees.bind_runs h hk
    | stray stray h =>
      -- The strict reading fails here with the error that the lenient one has recorded.
      obtain ⟨c'', fails⟩ := refuses a s c' stray
      rw [bind_apply, hrun]
      show AgreesAt c (k a s.strict c') _
      rw [fails]
      exact .diverged (h.bind fun a => (hk a).grows)

theorem after {r r' : Rule α} {f f' : α → Rule β} (hr : Agrees r r')
    (hf : ∀ a, Halts ends (f a) (f' a)) : Halts ends (r >>= f) (r' >>= f') := by
  refine ⟨hr.grows.bind fun a => (hf a).grows, fun s c => ?_⟩
  have first := hr.runs s c
  -- What has parted stays so, whatever is read behind it.
  have on {e : SyntaxError} (h : Diverges c e (r' s.lenient c)) :
      Diverges c e ((r' >>= f') s.lenient c) := h.bind fun a => (hf a).grows
  rw [bind_apply] at on ⊢
  rw [bind_apply]
  revert first on
  generalize r s.strict c = strict
  generalize r' s.lenient c = lenient
  intro first on
  cases first with
  | @ok a c' same =>
    have second := (hf a).runs s c'
    revert second
    dsimp only
    generalize f a s.strict c' = strict
    generalize f' a s.lenient c' = lenient
    intro second
    cases second with
    | clear h clear => exact .clear (h.of_errors_eq same) clear
    | stray stray h =>
      rw [Diverges, same] at h
      exact .stray stray h
  | error same => exact .clear (.error same) fun _ _ h => by cases h
  | diverged h => exact .clear (.diverged (on h)) fun _ _ h => by cases h

theorem declaring {r r' : Rule α} (names : List String) (hr : Halts ends r r') :
    Halts ends (declaring names r) (declaring names r') := by
  refine ⟨hr.grows.bracket (fun _ => rfl) fun _ => rfl, fun s c => ?_⟩
  have inner := hr.runs s { c with declared := names :: c.declared }
  unfold Grammar.declaring
  rw [bracket_apply, bracket_apply]
  revert inner
  generalize r s.strict _ = strict
  generalize r' s.lenient _ = lenient
  intro inner
  cases inner with
  | clear h clear =>
    have outer : AgreesAt c strict lenient := h.of_errors_eq (by rfl)
    refine .clear (outer.closing fun _ => rfl) fun a c' hrun => ?_
    cases strict with
    | ok a c'' =>
      cases hrun
      exact clear a c'' rfl
    | error f c'' => cases hrun
  | stray stray h => exact .stray stray (h.closing fun _ => rfl)

end Halts

/-! ### Bodies -/

theorem afterStray_records (ends : List Keyword) {r : Rule Stmt} (h : Grows r) (size : Nat)
    (s : Setting) (c : Cursor) :
    c.errors ++ [strayError ends (s.next c)] <+:
      (cursorAfter (afterStray r ends size s c)).errors := by
  have rest : Grows (do
      let _ ← advance
      let _ ← accept Mark.semicolon
      let stmts ← statementList r
      checkSizes size stmts
      return stmts) := by
    refine (Grows.of_steady .advance).bind fun _ => ?_
    refine Grows.bind (grows_congruence.accept_rel _) fun _ => ?_
    refine Grows.bind (grows_recovery.statementList_rel (s := r) h) fun stmts => ?_
    exact Grows.bind (grows_congruence.checkSizes_rel _ _) fun _ => .of_steady (.pure _)
  exact rest s { c with errors := c.errors ++ [strayError ends (s.next c)] }

theorem halts_bodyWith {r r' : Rule Stmt} (h : Agrees r r') :
    Halts ends (bodyWith r ends) (bodyWith r' ends) := by
  unfold bodyWith
  refine .after (agrees_recovery.statementList_rel h) fun first => ?_
  -- What comes behind the first statements only adds errors, as each part of it does.
  have item (size : Nat) : Grows (afterStray r' ends size) :=
    @GrammarCongruence.afterStray_rel _ _ r' r' grows_recovery h.grows ends size
  have loop (n size : Nat) : Grows (many (seesStray ends) (afterStray r' ends) n size) :=
    @Steps.many_rel _ _ grows_congruence.toSteps _ (seesStray ends) _ (afterStray r' ends) _
      (grows_recovery.seesStray_rel ends) item n size
  refine ⟨?_, fun s c => ?_⟩
  · refine (Grows.of_steady Steady.passes).bind fun n => ?_
    exact (loop n _).bind fun others => .of_steady (.pure _)
  -- Where no token is astray, nothing is done, strictly or not.
  have clear {r : Rule Stmt} {s : Setting} (h : seesStray ends s c = .ok false c) :
      (passes >>= fun n => many (seesStray ends) (afterStray r ends) n first.length >>=
        fun others => pure (first ++ others)) s c = .ok (first ++ []) c := by
    rw [bind_apply]
    show (many _ _ s.limits.maxIterations _ >>= _) s c = _
    rw [bind_apply, many_done h]
    rfl
  have looks : seesStray ends s.lenient c = .ok (isStray ends (s.next c).lexeme) c := rfl
  rw [clear rfl]
  -- The strict run never goes on from a token that is astray, so the two differ from there on.
  cases stray : isStray ends (s.next c).lexeme with
  | false =>
    rw [stray] at looks
    rw [clear looks]
    refine .clear (.ok rfl) fun a c' hrun => ?_
    cases hrun
    exact stray
  | true =>
    rw [stray] at looks
    refine .stray stray ?_
    rw [bind_apply]
    show Diverges c _ ((many _ _ s.limits.maxIterations _ >>= _) s.lenient c)
    refine Diverges.bind ?_ fun others => .of_steady (.pure _)
    cases s.limits.maxIterations with
    | zero =>
      obtain ⟨e, ends⟩ := many_zero looks
      exact .inr ⟨.limit e, c, ends, fun _ => nofun⟩
    | succ n =>
      rw [many_succ looks]
      have noted := afterStray_records ends h.grows first.length s.lenient c
      refine Diverges.bind (.inl noted) fun xs => ?_
      exact (loop _ _).bind fun ys => .of_steady (.pure _)

end Plc.Grammar

namespace Plc

namespace Grammar

/-! ### Bare texts -/

theorem finishText_done {s : Setting} {c : Cursor} (h : (s.next c).lexeme.isFinish = true) :
    finishText s c = .ok () c := by
  show (if (s.recovers && !(s.next c).lexeme.isFinish) = true then _ else expectEnd : Rule Unit)
    s c = _
  rw [h, Bool.not_true, Bool.and_false]
  show (if (!(s.next c).lexeme.isFinish) = true then _ else pure () : Rule Unit) s c = _
  rw [h]
  rfl

/-- The strict reading fails where the lenient one reports. -/
theorem finishText_strict {s : Setting} {c : Cursor} (h : (s.next c).lexeme.isFinish = false) :
    finishText s.strict c = .error (.grammar (strayError [] (s.next c))) c := by
  show (if (!(s.next c).lexeme.isFinish) = true then _ else pure () : Rule Unit) s.strict c = _
  rw [h]
  rfl

theorem finishText_lenient {s : Setting} {c : Cursor} (h : (s.next c).lexeme.isFinish = false) :
    finishText s.lenient c = .ok () { c with errors := c.errors ++ [strayError [] (s.next c)] } := by
  show (if (!(s.next c).lexeme.isFinish) = true then _ else expectEnd : Rule Unit) s.lenient c = _
  rw [h]
  rfl

theorem agrees_finishText : Agrees finishText finishText := by
  have runs (s : Setting) (c : Cursor) :
      AgreesAt c (finishText s.strict c) (finishText s.lenient c) := by
    cases h : (s.next c).lexeme.isFinish with
    | true =>
      have strict : finishText s.strict c = _ := finishText_done h
      have lenient : finishText s.lenient c = _ := finishText_done h
      rw [strict, lenient]
      exact .ok rfl
    | false =>
      rw [finishText_strict h, finishText_lenient h]
      exact .diverged (.inl List.prefix_rfl)
  exact ⟨grows_recovery.finishText_rel, runs⟩

theorem agrees_allStatements (levels : Nat) (declared : List String) :
    Agrees (allStatements levels declared) (allStatements levels declared) := by
  unfold allStatements
  have inside : Halts [] (body levels []) (body levels []) :=
    halts_bodyWith (agrees_recovery.statement_rel (.refl levels))
  have last (stmts : List Stmt) : Agrees (do finishText; return stmts) (do finishText; return stmts) :=
    agrees_finishText.bind fun _ => .of_steady (.pure stmts)
  refine (inside.declaring declared).bind last fun stmts s c stray => ?_
  -- A token that is astray is not the end, and so the strict run fails there.
  have open' : (s.next c).lexeme.isFinish = false := by
    simp only [isStray, Bool.not_eq_true', Bool.or_eq_false_iff] at stray
    exact stray.1.2
  rw [bind_apply, finishText_strict open']
  exact ⟨c, rfl⟩

/-- Outcomes of runs that agree and begin without errors. -/
theorem outcome_agrees {α : Type} {c : Cursor} {strict lenient : EStateM.Result Fault Cursor α}
    (start : c.errors = []) (h : AgreesAt c strict lenient) :
    (∀ a, (outcome strict).map (·.1) = .ok a ↔ outcome lenient = .ok (a, [])) ∧
      (∀ e a es, (outcome strict).map (·.1) = .error (.grammar e) → outcome lenient = .ok (a, es) →
        ∃ later, es = e :: later) ∧
      (∀ f, (outcome strict).map (·.1) = .error f → (∀ e, f ≠ .grammar e) →
        outcome lenient = .error f) := by
  -- The runs gave the same, failed alike, or parted; after they parted, an error is noted that
  -- comes first.
  cases h with
  | @ok a c' same =>
    rw [start] at same
    refine ⟨fun b => ?_, by rintro _ _ _ ⟨⟩, by rintro _ ⟨⟩⟩
    simp [outcome, Except.map, same]
  | @error f c' same =>
    refine ⟨fun b => ⟨by rintro ⟨⟩, by rintro ⟨⟩⟩, by rintro _ _ _ - ⟨⟩, ?_⟩
    rintro _ ⟨⟩ _
    rfl
  | @diverged e c' lenient h =>
    have later {a : α} {es : List SyntaxError} (hl : outcome lenient = .ok (a, es)) :
        ∃ later, es = e :: later := by
      obtain noted | ⟨f, c'', rfl, _⟩ := h
      · cases lenient with
        | ok b c'' =>
          cases hl
          rw [start] at noted
          obtain ⟨later, hlater⟩ := noted
          exact ⟨later, hlater.symm⟩
        | error f c'' => cases hl
      · cases hl
    refine ⟨fun a => ⟨by rintro ⟨⟩, fun hl => ?_⟩, ?_, ?_⟩
    · obtain ⟨_, hes⟩ := later hl
      cases hes
    · rintro _ a es ⟨⟩ hl
      exact later hl
    · rintro _ ⟨⟩ other
      exact absurd rfl (other e)

end Grammar

namespace Reading

open Grammar

/-- A text is read alike with and without recovery up to the first error, when the rule is. -/
theorem strictly_leniently (r : Reading) {α : Type} {rule rule' : Nat → Rule α}
    (h : Agrees (rule r.limits.maxDepth) (rule' r.limits.maxDepth)) :
    (∀ a, r.strictly rule = .ok a ↔ r.leniently rule' = .ok (a, [])) ∧
      (∀ e a es, r.strictly rule = .error (.grammar e) → r.leniently rule' = .ok (a, es) →
        ∃ later, es = e :: later) ∧
      (∀ f, r.strictly rule = .error f → (∀ e, f ≠ .grammar e) → r.leniently rule' = .error f) := by
  unfold strictly leniently run
  cases tokensWithin r.limits r.dialect r.source with
  | error f =>
    refine ⟨fun a => ⟨by rintro ⟨⟩, by rintro ⟨⟩⟩, by rintro _ _ _ - ⟨⟩, ?_⟩
    rintro _ ⟨⟩ _
    rfl
  | ok ts =>
    let finish := ts.getLastD (Scanner.finish r.source.length)
    exact outcome_agrees rfl (h.runs ⟨r.source, r.dialect, r.limits, false, finish⟩ (.before ts))

/-- Reading statements with and without recovery.  The strict reading accepts exactly when the
lenient one has no errors, and then they give the same list.  Otherwise the first error is the one
at which the strict reading ends, unless something that no reading recovers from ends the lenient
one later; what ends the strict reading in that way ends the lenient one in the same way. -/
theorem statements_recovering (r : Reading) (declared : List String) :
    (∀ ss, r.statements declared = .ok ss ↔ r.statementsRecovering declared = .ok (ss, [])) ∧
      (∀ e ss es, r.statements declared = .error (.grammar e) →
        r.statementsRecovering declared = .ok (ss, es) → ∃ later, es = e :: later) ∧
      (∀ f, r.statements declared = .error f → (∀ e, f ≠ .grammar e) →
        r.statementsRecovering declared = .error f) :=
  strictly_leniently r (agrees_allStatements _ declared)

end Reading

end Plc

/-
Recovery comes to an end.

Under bounds that are large enough every text is read to its end: recovery passes over a token before
the reading goes on, and so no loop runs forever.  Each error is paid for by a token of its own, and so
there are no more errors than tokens.

* `Covered` — no bound and no syntax error ended the run, and its errors are paid for;
* `finishes_allStatements`, `finishes_compilationUnit` — so it is for the two rules that read whole texts;
* `Reading.recovering_pays` — what follows for texts.
-/
import Plc.Proofs.Progress.Decl
import Plc.Proofs.Token.Stretch

namespace Plc

namespace Grammar

variable {α : Type}

/-! ### Runs to the end of the text -/

/-- No bound and no syntax error ends the run, and there are at most as many new errors as there
were tokens. -/
def Covered (c : Cursor) : EStateM.Result Fault Cursor α → Prop
  | .ok _ c' => c'.errors.length ≤ c.errors.length + c.rest.length
  | .error f _ => f = .unreadableDigits ∨ f = .infiniteDuration

/-- Where errors are recovered from, the rule comes to a covered run under all bounds that are large
enough. -/
def Finishes (r : Nat → Rule α) : Prop :=
  ∀ (s : Setting) (c : Cursor), s.EndsText → s.recovers = true →
    ∃ run, Covered c run ∧ Amply fun levels l => r levels (s.raised l) c = run

theorem Fares.covered {need : α → Nat} {spare : Bool} {c : Cursor}
    {run : EStateM.Result Fault Cursor α} (h : Fares need spare c run)
    (forgiven : ∀ e c', run ≠ .error (.grammar e) c') : Covered c run := by
  cases run with
  | ok a c' => exact Nat.le_trans (Nat.le_add_right ..) h.1.paid
  | error f c' =>
    cases f with
    | grammar e => exact absurd rfl (forgiven e c')
    | limit | endless => exact h.elim
    | unreadableDigits => exact .inl rfl
    | infiniteDuration => exact .inr rfl

/-- A rule that forgives is not ended by a syntax error under large bounds either. -/
theorem Forgives.amply {r : Nat → Rule α} (h : ∀ levels, Forgives (r levels)) {s : Setting}
    {c : Cursor} (lenient : s.recovers = true) {run : EStateM.Result Fault Cursor α}
    (runs : Amply fun levels l => r levels (s.raised l) c = run) (e : SyntaxError) (c' : Cursor) :
    run ≠ .error (.grammar e) c' := by
  obtain ⟨levels, l, rfl⟩ := runs.holds
  exact h levels lenient

theorem finishes_compilationUnit : Finishes compilationUnit := by
  intro s c ends lenient
  have inside : Ends false c.rest.length (fun _ => 0) false compilationUnit :=
    Ends.compilationUnit _
  obtain ⟨run, fares, runs⟩ := inside s c ends (Nat.le_refl _) nofun
  exact ⟨run, fares.covered (Forgives.amply Forgives.compilationUnit lenient runs), runs⟩

theorem finishes_allStatements (declared : List String) :
    Finishes fun levels => allStatements levels declared := by
  intro s c ends lenient
  have inside : Ends false c.rest.length (fun _ => 0) false fun levels =>
      declaring declared (body levels []) := (Ends.body []).declaring declared
  obtain ⟨run, fares, runs⟩ := inside s c ends (Nat.le_refl _) nofun
  cases run with
  | error f c' =>
    have failed : Amply fun levels l =>
        allStatements levels declared (s.raised l) c = .error f c' :=
      runs.mono fun levels l inner => bind_error inner
    have forgiven := Forgives.amply (Forgives.allStatements · declared) lenient failed
    exact ⟨.error f c', fares.covered forgiven, failed⟩
  | ok stmts c' =>
    have paid := fares.1.paid
    cases ended : (s.next c').lexeme.isFinish with
    | true =>
      refine ⟨.ok stmts c', ?_, runs.mono fun levels l inner => (bind_ok inner).trans ?_⟩
      · exact Nat.le_trans (Nat.le_add_right ..) paid
      · exact bind_ok (finishText_done ended)
    | false =>
      -- The error that the text goes on is paid for by the token that it goes on with.
      obtain ⟨t, rest, tokens⟩ := ends.ahead ended
      have more : 0 < c'.rest.length := by rw [tokens]; exact Nat.succ_pos _
      refine ⟨.ok stmts { c' with errors := c'.errors ++ [strayError [] (s.next c')] }, ?_,
        runs.mono fun levels l inner => (bind_ok inner).trans ?_⟩
      · show (c'.errors ++ [_]).length ≤ _
        rw [List.length_append, List.length_singleton]
        omega
      · have same : (s.raised l).lenient = s.raised l := by
          show { s.raised l with recovers := true } = s.raised l
          rw [← lenient]
          rfl
        have reported := finishText_lenient (s := s.raised l) ended
        rw [same] at reported
        exact bind_ok reported

end Grammar

/-! ### The tokens of a text -/

/-- The token belongs to the program: it is no pragma and not the end of the text. -/
def Token.isCode (t : Token) : Bool :=
  match t.lexeme with
  | .pragma _ | .finish => false
  | _ => true

theorem Token.isCode_of_isFinish {t : Token} (h : t.lexeme.isFinish = true) : t.isCode = false := by
  rw [isCode, Grammar.eq_finish h]

/-- The number of tokens of a text, without pragmas and without its end. -/
def Reading.tokenCount (r : Reading) : Nat :=
  (scan r.dialect r.source).1.countP Token.isCode

namespace Grammar

theorem liftPragmas_length {ts : List Token} (goes : ∀ t ∈ ts, t.lexeme.isFinish = false)
    (index : Nat) (pending : List Token) :
    (liftPragmas index pending ts).1.length = ts.countP Token.isCode := by
  induction ts generalizing index pending with
  | nil => rfl
  | cons t ts ih =>
    obtain ⟨here, later⟩ := List.forall_mem_cons.1 goes
    unfold liftPragmas
    split
    · next p pragma =>
      have passed : ¬t.isCode = true := by rw [Token.isCode, pragma]; exact Bool.false_ne_true
      rw [ih later, List.countP_cons_of_neg passed]
    · next code =>
      have counts : t.isCode = true := by
        unfold Token.isCode
        split
        · next p pragma => exact (code p pragma).elim
        · next finish => rw [finish] at here; cases here
        · rfl
      rw [List.countP_cons_of_pos counts, ← ih later (index + 1) []]
      rfl

/-- Under bounds that are large enough a text has all its tokens. -/
theorem tokensWithin_amply (d : Dialect) (source : List Char) :
    Amply fun _ l => tokensWithin l d source = tokens d source := by
  have size := Amply.bound .inputSize (utf8Size source)
  have count := Amply.bound .iterations (scan d source).1.length
  refine (size.and count).mono fun _ l both => ?_
  unfold tokensWithin tokens
  rw [Limits.check_eq_ok_iff.2 both.1]
  dsimp only
  rw [show (scan d source).1.drop l.maxIterations = [] from List.drop_eq_nil_of_le both.2]
  cases scan d source with
  | mk ts fault => cases fault <;> rfl

end Grammar

/-! ### Texts -/

/-- Limits may be raised as far as wanted. -/
theorem Limits.exists_le (l : Limits) (room : Nat) :
    ∃ m : Limits, l.Le m ∧ ∀ kind, room ≤ m.bound kind := by
  refine ⟨⟨l.maxInputSize + room, l.maxIterations + room, l.maxDepth + room,
    l.maxCollectionSize + room, l.maxNodes + room, l.maxStringLength + room⟩, ?_, ?_⟩
  · intro kind
    cases kind <;> exact Nat.le_add_right ..
  · intro kind
    cases kind <;> exact Nat.le_add_left ..

namespace Reading

open Grammar

variable {α : Type}

/-- What recovery comes to: a result, with at most as many errors as the text has tokens; or nothing,
where the text has a number or duration that cannot be read. -/
def Pays (r : Reading) : Except Fault (α × List SyntaxError) → Prop
  | .ok (_, errors) => errors.length ≤ r.tokenCount
  | .error f => f = .unreadableDigits ∨ f = .infiniteDuration

theorem leniently_pays (r : Reading) {rule : Nat → Rule α} (h : Finishes rule) :
    Amply fun levels l => r.Pays (run (rule levels) r.source l r.dialect true) := by
  have all := tokensWithin_amply r.dialect r.source
  cases hscan : scan r.dialect r.source with
  | mk ts fault =>
    unfold tokens at all
    rw [hscan] at all
    cases fault with
    -- Only a literal that cannot be read stops the cutting of the text.
    | some f =>
      have literal : f = .unreadableDigits := Scanner.run_fault (congrArg Prod.snd hscan)
      refine all.mono fun levels l cut => ?_
      unfold run
      rw [cut]
      exact .inl literal
    | none =>
      have hts : tokens r.dialect r.source = .ok ts := by
        unfold tokens
        rw [hscan]
      obtain ⟨front, last, _, _, rfl, scans, -, ended⟩ := scans_of_tokens' hts
      have count : (Cursor.before (front ++ [last])).rest.length = r.tokenCount := by
        show (liftPragmas 0 [] (front ++ [last]).dropLast).1.length = _
        rw [List.dropLast_concat, liftPragmas_length scans.goes, tokenCount, hscan]
        rw [List.countP_append, List.countP_singleton, Token.isCode_of_isFinish ended]
        rfl
      -- From here on only the limits vary, and with enough of them the run is always the same.
      let setting (l : Limits) : Setting := ⟨r.source, r.dialect, l, true, last⟩
      obtain ⟨ran, covered, runs⟩ :=
        h (setting r.limits) (.before (front ++ [last])) (eq_finish ended) rfl
      refine (all.and runs).mono fun levels l both => ?_
      unfold run
      rw [both.1]
      dsimp only
      rw [List.getLastD_concat]
      have same : rule levels (setting l) (.before (front ++ [last])) = ran := both.2
      rw [show (⟨r.source, r.dialect, l, true, last⟩ : Setting) = setting l from rfl, same]
      cases ran with
      | error f c => exact covered
      | ok a c =>
        have few : c.errors.length ≤ 0 + (Cursor.before (front ++ [last])).rest.length := covered
        rwa [Nat.zero_add, count] at few

/-! Limits that do not end the reading may be raised as far as wanted without a change. -/

theorem statementsRecovering_pays (r : Reading) (declared : List String)
    (settled : Settled (r.statementsRecovering declared)) :
    r.Pays (r.statementsRecovering declared) := by
  obtain ⟨room, pays⟩ := r.leniently_pays (finishes_allStatements declared)
  obtain ⟨m, le, wide⟩ := r.limits.exists_le room
  rw [← statementsRecovering_raised le declared settled]
  exact pays m.maxDepth m (wide .depth) wide

theorem unitRecovering_pays (r : Reading) (settled : Settled r.unitRecovering) :
    r.Pays r.unitRecovering := by
  obtain ⟨room, pays⟩ := r.leniently_pays finishes_compilationUnit
  obtain ⟨m, le, wide⟩ := r.limits.exists_le room
  rw [← unitRecovering_raised le settled]
  exact pays m.maxDepth m (wide .depth) wide

/-- Recovery always makes progress.  Under all limits that are large enough, statements and
compilation units are read to the end of the text, whatever the text is, unless it has a number or
duration that cannot be read; and under any limits that do not end the reading there are at
most as many errors as tokens. -/
theorem recovering_pays (r : Reading) (declared : List String) :
    (∃ room, ∀ l : Limits, (∀ kind, room ≤ l.bound kind) →
      r.Pays ((r.raised l).statementsRecovering declared) ∧
      r.Pays (r.raised l).unitRecovering) ∧
    (Settled (r.statementsRecovering declared) → r.Pays (r.statementsRecovering declared)) ∧
    (Settled r.unitRecovering → r.Pays r.unitRecovering) := by
  obtain ⟨room, pays⟩ :=
    (r.leniently_pays (finishes_allStatements declared)).and (r.leniently_pays finishes_compilationUnit)
  exact ⟨⟨room, fun l wide => pays l.maxDepth l (wide .depth) wide⟩,
    r.statementsRecovering_pays declared, r.unitRecovering_pays⟩

end Reading

end Plc

/-
Reading compilation units with and without recovery.

The strict reading lets variables and methods follow on the body of a function block; the
lenient one reports a block of variables there.  Apart from that the two agree: the
lenient reading is without errors exactly when the strict reading accepts the text with
all of its function blocks closed, see `closedBody`.

* `agrees_closedUnit` — lenient runs agree with strict runs in which function blocks are closed;
* `Reading.unit_recovering` — what follows for the readings of every text.
-/
import Plc.Proofs.Grammar.DeclCongruence
import Plc.Proofs.Recovery.Statements
import Plc.Proofs.Fallible

namespace Plc

namespace Grammar

/-! ### Closed function blocks -/

/-- The words that end the body of a function block. -/
def blockEnds : List Keyword := [.END_FUNCTION_BLOCK, .METHOD]

/-- Ends the reading at a stray token. -/
def refuseStray (ends : List Keyword) : Rule Unit := do
  if isStray ends (← lexeme) then failExpecting (describeEnds ends)

/-- The body of a function block on which nothing follows but methods and the end of the block. -/
def closedBody (levels : Nat) : Rule (List Stmt) := do
  let stmts ← body levels blockEnds
  refuseStray blockEnds
  return stmts

/-- The declarations of a text in which all function blocks are closed. -/
def closedUnit (levels : Nat) : Rule CompilationUnit :=
  unitWith (declarationWith (fun levels => functionBlockWith (closedBody levels) levels) levels)

/-! ### Lenient runs agree with closed ones -/

theorem isAmong_of_is {l : Lexeme} {k : Keyword} {ks : List Keyword} (h : l.is (.keyword k) = true)
    (hk : k ∈ ks) : l.isAmong ks = true := by
  cases l with
  | keyword k' =>
    obtain rfl : k' = k := by simpa [Lexeme.is] using h
    simpa [Lexeme.isAmong] using hk
  | _ => simp [Lexeme.is] at h

/-- A stray token is neither the end of the text nor one of the words that end the body. -/
theorem isStray_iff {ends : List Keyword} {l : Lexeme} : isStray ends l = true ↔
    l.isAmong ends = false ∧ l.isFinish = false ∧ l.isAmong declarationWords = false := by
  simp [isStray, and_assoc]

theorem finishPou_stray {ends : List Keyword} {close : Keyword} {opener : Token} {s : Setting}
    {c : Cursor} (hclose : close ∈ ends) (h : isStray ends (s.next c).lexeme = true) :
    finishPou close opener s c =
      .error (.grammar (unexpectedToken (s.next c) (some (Terminal.keyword close).quoted))) c := by
  obtain ⟨other, inside, -⟩ := isStray_iff.mp h
  have differs : (s.next c).lexeme.is (.keyword close) = false := by
    cases hl : (s.next c).lexeme.is (.keyword close) with
    | false => rfl
    | true => rw [isAmong_of_is hl hclose] at other; cases other
  unfold finishPou
  show (if (s.next c).lexeme.isFinish = true then _ else _ : Rule Unit) s c = _
  rw [inside]
  have missing : expect (.keyword close) s c = .error (.grammar
      (unexpectedToken (s.next c) (some (Terminal.keyword close).quoted))) c := by
    unfold expect
    show (if (s.next c).lexeme.is (.keyword close) = true then _ else _ : Rule Token) s c = _
    rw [differs]
    rfl
  show (expect (.keyword close) >>= fun _ => _ : Rule Unit) s c = _
  rw [bind_apply, missing]

theorem refuses_finishPou {α : Type} {close : Keyword} {opener : Token} (k : Rule α) :
    Refuses [close] (finishPou close opener >>= fun _ => k) := by
  intro s c stray
  have fails : finishPou close opener s.strict c = _ := finishPou_stray (List.mem_singleton_self _) stray
  rw [bind_apply, fails]
  exact ⟨c, rfl⟩

theorem agrees_unit : UnitCongruence fun _ (r r' : Rule _) => Agrees r r' := by
  refine { agrees_recovery with closed := ?_ }
  intro α f f' levels levels' hl blocks close opener hf
  have inside : Halts [close] (pouBody levels blocks close) (pouBody levels' blocks close) := by
    refine Halts.declaring _ (.after (agrees_recovery.accept_rel _) fun _ => ?_)
    exact halts_bodyWith (agrees_recovery.statement_rel hl)
  refine inside.bind (fun ss => ?_) fun ss => refuses_finishPou _
  exact (Congruence.finishPou_rel agrees_recovery.toCongruence close opener).bind fun _ => hf ss

theorem refuseStray_apply (ends : List Keyword) (s : Setting) (c : Cursor) :
    refuseStray ends s c = if isStray ends (s.next c).lexeme = true then
      .error (.grammar (strayError ends (s.next c))) c else .ok () c := by
  show (if isStray ends (s.next c).lexeme = true then _ else _ : Rule Unit) s c = _
  split <;> rfl

theorem agrees_closedBody {levels levels' : Nat}
    (hl : Levels (fun _ r r' => Agrees r r') levels levels') :
    Agrees (closedBody levels) (body levels' blockEnds) := by
  have inside : Halts blockEnds (body levels blockEnds) (body levels' blockEnds) :=
    halts_bodyWith (agrees_recovery.statement_rel hl)
  refine ⟨inside.grows, fun s c => ?_⟩
  have first := inside.runs s c
  unfold closedBody
  rw [bind_apply]
  revert first
  generalize body levels blockEnds s.strict c = strict
  generalize body levels' blockEnds s.lenient c = lenient
  intro first
  cases first with
  | clear h clear =>
    cases h with
    -- no token is astray, so that nothing is refused
    | @ok stmts c' same =>
      show AgreesAt c ((refuseStray blockEnds >>= fun _ => pure stmts) s.strict c') _
      have next : isStray blockEnds (s.strict.next c').lexeme = false := clear stmts c' rfl
      rw [bind_apply, refuseStray_apply, next]
      exact .ok same
    | error same => exact .error same
    | diverged h => exact .diverged h
  -- the strict run is refused the token that the other one reports
  | @stray stmts c' _ stray h =>
    show AgreesAt c ((refuseStray blockEnds >>= fun _ => pure stmts) s.strict c') _
    have next : isStray blockEnds (s.strict.next c').lexeme = true := stray
    rw [bind_apply, refuseStray_apply, next]
    exact .diverged h

theorem agrees_closedUnit (levels : Nat) : Agrees (closedUnit levels) (compilationUnit levels) :=
  agrees_unit.unitWith_rel (agrees_unit.declarationWith_rel
    (fun hl => agrees_unit.functionBlockWith_rel (agrees_closedBody hl) hl) (.refl levels))

/-! ### Closed runs are strict runs -/

/-- How strict runs of a rule may end, when function blocks have to be closed and when not: in the
same way, both without a result, or the one at a word that opens a block of variables. -/
inductive ClosesAt {α : Type} :
    EStateM.Result Fault Cursor α → EStateM.Result Fault Cursor α → Prop
  | same (run : EStateM.Result Fault Cursor α) : ClosesAt run run
  | fails (f f' : Fault) (c c' : Cursor) : ClosesAt (.error f c) (.error f' c')
  | stopped {t : Token} (h : t.lexeme.isAmong varBlockWords = true) (c : Cursor)
      (run : EStateM.Result Fault Cursor α) :
      ClosesAt (.error (.grammar (strayError blockEnds t)) c) run

/-- The strict runs of the two rules are the same but for open function blocks. -/
def Closes {α : Type} (r r' : Rule α) : Prop :=
  ∀ (s : Setting) c, ClosesAt (r s.strict c) (r' s.strict c)

namespace Closes

variable {α β : Type}

theorem refl (r : Rule α) : Closes r r :=
  fun _ _ => .same _

theorem bind {r r' : Rule α} {f f' : α → Rule β} (hr : Closes r r')
    (hf : ∀ a, Closes (f a) (f' a)) : Closes (r >>= f) (r' >>= f') := by
  intro s c
  have first := hr s c
  rw [bind_apply, bind_apply]
  revert first
  generalize r s.strict c = run
  generalize r' s.strict c = run'
  intro first
  cases first with
  | same =>
    cases run with
    | ok a c' => exact hf a s c'
    | error f c' => exact .same _
  | fails f f' c c' => exact .fails f f' c c'
  | stopped h c => exact .stopped h c _

theorem bracket {r r' : Rule α} {before after : Cursor → Cursor} (hr : Closes r r') :
    Closes (bracket before after r) (bracket before after r') := by
  intro s c
  rw [bracket_apply, bracket_apply]
  have inner := hr s (before c)
  revert inner
  generalize r s.strict (before c) = run
  generalize r' s.strict (before c) = run'
  intro inner
  cases inner with
  | same => exact .same _
  | fails f f' c c' => exact .fails f f' _ _
  | stopped h c => exact .stopped h _ _

theorem recovering {r r' : Rule α} (stops : Lexeme → Bool) (pastSemicolon : Bool)
    (hr : Closes r r') :
    Closes (recovering stops pastSemicolon r) (recovering stops pastSemicolon r') := by
  intro s c
  have inner := hr s c
  unfold Grammar.recovering
  revert inner
  generalize r s.strict c = run
  generalize r' s.strict c = run'
  intro inner
  -- a strict run ends at its error
  cases inner with
  | same => exact .same _
  | fails f f' c c' => cases f <;> cases f' <;> exact .fails _ _ c c'
  | stopped h c => exact .stopped h c _

end Closes

theorem closes_grammar : GrammarCongruence fun _ (r r' : Rule _) => Closes r r' :=
  { Congruence.of_steady (Q := fun _ r r' => Closes r r') (fun _ => .refl _) .bind
      (fun _ _ => .bracket) with
    isDeclared := fun _ => .refl _
    recovering := .recovering
    mode := .refl _
    report := fun _ => .refl _ }

/-- No members come at a stray token that opens no block of variables. -/
theorem members_none {levels : Nat} {m : Members} {s : Setting} {c : Cursor}
    (stray : isStray blockEnds (s.next c).lexeme = true)
    (other : (s.next c).lexeme.isAmong varBlockWords = false) : members levels m s c = .ok m c := by
  have noMethod : (s.next c).lexeme.is (.keyword .METHOD) = false := by
    cases hl : (s.next c).lexeme.is (.keyword .METHOD) with
    | false => rfl
    | true =>
      rw [isStray_iff, isAmong_of_is hl (by decide)] at stray
      cases stray.1
  unfold members
  rw [bind_apply]
  refine repeating_done ?_
  show (if (s.next c).lexeme.is (.keyword .METHOD) = true then _ else _ : Rule _) s c = _
  rw [noMethod]
  show (if (s.next c).lexeme.isAmong varBlockWords = true then _ else _ : Rule _) s c = _
  rw [other]
  rfl

/-- A function block whose body no block of variables follows on is closed, or fails in any case. -/
theorem closes_functionBlock (levels : Nat) :
    Closes (functionBlockWith (closedBody levels) levels) (functionBlockDecl levels) := by
  unfold functionBlockDecl functionBlockWith
  refine (Closes.refl _).bind fun t => ?_
  refine (Closes.refl _).bind fun (name, heritage) => ?_
  refine (Closes.refl _).bind fun (attributes, pragmas) => ?_
  refine (Closes.refl _).bind fun first => ?_
  -- From here on the rules differ: the one refuses a stray token after the body, the other goes on
  -- to the members.
  intro s c
  rw [bind_apply, bind_apply]
  unfold declaring
  rw [bracket_apply, bracket_apply, bind_apply, bind_apply]
  cases accept (.keyword .BEGIN) s.strict { c with declared := namesOf first.blocks :: c.declared } with
  | error f c' => exact .same _
  | ok _ c₁ =>
    simp only [closedBody, bind_apply]
    have same : body levels [.END_FUNCTION_BLOCK, .METHOD] = body levels blockEnds := rfl
    rw [same]
    cases body levels blockEnds s.strict c₁ with
    | error f c' => exact .same _
    | ok stmts c₂ =>
      dsimp only
      rw [refuseStray_apply]
      cases stray : isStray blockEnds (s.strict.next c₂).lexeme with
      | false => exact .same _
      | true =>
        cases hvar : (s.strict.next c₂).lexeme.isAmong varBlockWords with
        | true => exact .stopped hvar _ _
        | false =>
          -- No member comes either, and so the end of the function block is missing.
          have fails : finishPou .END_FUNCTION_BLOCK t s.strict
              { c₂ with declared := c₂.declared.tail } = _ := finishPou_stray (by decide) stray
          rw [members_none stray hvar]
          simp only [closing, pure_apply, fails]
          exact .fails _ _ _ _

/-- A reading that may open no further construct has no result. -/
theorem Closes.levels_eq {levels levels' : Nat} :
    Levels (fun _ r r' => Closes r r') levels levels' → levels = levels'
  | .zero => rfl
  | .succ hl => congrArg (· + 1) (levels_eq hl)
  | .spent deep _ => by
    have both := deep (pure ()) ⟨[], .generic, {}, false, Scanner.finish 0⟩ { rest := [] }
    change ClosesAt (.error (.limit _) _) (.ok () _) at both
    cases both

theorem closes_closedUnit (levels : Nat) : Closes (closedUnit levels) (compilationUnit levels) := by
  refine closes_grammar.units.unitWith_rel (closes_grammar.units.declarationWith_rel ?_ (.refl levels))
  intro levels levels' hl
  obtain rfl := Closes.levels_eq hl
  exact closes_functionBlock levels

end Grammar

namespace Reading

open Grammar

/-- The compilation unit that the text is, if all of its function blocks are closed. -/
def closedUnit (r : Reading) : Except Fault CompilationUnit :=
  r.strictly Grammar.closedUnit

/-- The strict reading gives the unit of a text with closed function blocks, too, and when it gives
one for another text, a word that opens a block of variables stands after a body. -/
theorem closedUnit_or (r : Reading) :
    (∀ u, r.closedUnit = .ok u → r.unit = .ok u) ∧
      (∀ u, r.unit = .ok u → r.closedUnit = .ok u ∨ ∃ t, t.lexeme.isAmong varBlockWords = true ∧
        r.closedUnit = .error (.grammar (strayError blockEnds t))) := by
  unfold closedUnit unit strictly run
  cases tokensWithin r.limits r.dialect r.source with
  | error f => exact ⟨nofun, nofun⟩
  | ok ts =>
    let finish := ts.getLastD (Scanner.finish r.source.length)
    have runs := closes_closedUnit r.limits.maxDepth ⟨r.source, r.dialect, r.limits, false, finish⟩
      (.before ts)
    change ClosesAt (Grammar.closedUnit _ ⟨_, _, _, false, _⟩ _)
      (compilationUnit _ ⟨_, _, _, false, _⟩ _) at runs
    dsimp only
    revert runs
    generalize Grammar.closedUnit _ _ _ = closed
    generalize compilationUnit _ _ _ = full
    intro runs
    cases runs with
    | same => exact ⟨fun u h => h, fun u h => .inl h⟩
    | fails f f' c c' => exact ⟨nofun, nofun⟩
    | @stopped t h c => exact ⟨nofun, fun u _ => .inr ⟨t, h, rfl⟩⟩

/-- Reading compilation units with and without recovery.  A text that the lenient reading accepts
without errors the strict reading accepts, with the same unit.  The converse holds exactly for the
texts whose function blocks are closed; for the others that the strict reading accepts, the
first error is about a word that opens a block of variables. -/
theorem unit_recovering (r : Reading) :
    (∀ u, r.unitRecovering = .ok (u, []) → r.unit = .ok u) ∧
      (∀ u, r.unit = .ok u → (r.unitRecovering = .ok (u, []) ↔ r.closedUnit = .ok u)) ∧
      (∀ u u' es, r.unit = .ok u → r.unitRecovering = .ok (u', es) → (u' = u ∧ es = []) ∨
        ∃ t later, t.lexeme.isAmong varBlockWords = true ∧ es = strayError blockEnds t :: later) := by
  obtain ⟨accepts, rejects, -⟩ := strictly_leniently r (agrees_closedUnit r.limits.maxDepth)
  obtain ⟨closed, open'⟩ := closedUnit_or r
  refine ⟨fun u h => closed u ((accepts u).mpr h), fun u _ => (accepts u).symm, ?_⟩
  intro u u' es h hl
  obtain hclosed | ⟨t, ht, herror⟩ := open' u h
  · left
    have lenient : r.unitRecovering = .ok (u, []) := (accepts u).mp hclosed
    rw [lenient] at hl
    cases hl
    exact ⟨rfl, rfl⟩
  · right
    obtain ⟨later, hes⟩ := rejects _ u' es herror hl
    exact ⟨t, later, ht, hes⟩

/-- Not every text that the strict reading accepts is read without errors by the lenient one. -/
theorem unit_not_recovering :
    ¬∀ (r : Reading) u, r.unit = .ok u → r.unitRecovering = .ok (u, []) := by
  intro h
  let text :=
    "FUNCTION_BLOCK F VAR a : INT; END_VAR a := 1; VAR b : INT; END_VAR END_FUNCTION_BLOCK"
  let r : Reading := { source := text.toList }
  have accepted : r.unit.toOption.isSome = true := by decide +kernel
  have reported : r.unitRecovering.toOption.map (·.2.isEmpty) = some false := by decide +kernel
  obtain ⟨u, hu⟩ := ok_of_isSome accepted
  obtain ⟨a, read, errors⟩ := ok_of_map reported
  cases (h r u hu).symm.trans read
  cases errors

end Reading

end Plc

/-
The lenient reading of statements never ends with a syntax error.

A syntax error in a statement is recovered from, and what stands between and after statements
is reported.  What ends the reading is a passed limit or a number that nothing can be read from.

* `Forgives` — a rule whose lenient runs do not end with a syntax error;
* `Forgives.allStatements`, `Forgives.compilationUnit` — the rules that read whole texts;
* `Scanner.run_fault` — the only fault of the scan.
-/
import Plc.Proofs.Recovery.Statements
import Plc.Proofs.Token.Unreadable

namespace Plc

namespace Grammar

variable {α β γ : Type}

/-! ### Rules -/

/-- The rule does not end with a syntax error where errors are recovered from. -/
def Forgives (r : Rule α) : Prop :=
  ∀ ⦃s c e c'⦄, s.recovers = true → r s c ≠ .error (.grammar e) c'

namespace Forgives

/-- A rule that always gives a result. -/
theorem of_ok {r : Rule α} (h : ∀ s c, ∃ a c', r s c = .ok a c') : Forgives r := by
  intro s c e c' _ hrun
  obtain ⟨a, c'', hok⟩ := h s c
  rw [hok] at hrun
  cases hrun

theorem pure (a : α) : Forgives (pure a : Rule α) :=
  of_ok fun _ c => ⟨a, c, rfl⟩

theorem bind {r : Rule α} {f : α → Rule β} (hr : Forgives r) (hf : ∀ a, Forgives (f a)) :
    Forgives (r >>= f) := by
  intro s c e c' hs hrun
  rw [bind_apply] at hrun
  cases first : r s c with
  | ok a c₁ =>
    rw [first] at hrun
    exact hf a hs hrun
  | error f c₁ =>
    rw [first] at hrun
    cases hrun
    exact hr hs first

theorem ite {p : Prop} [Decidable p] {r r' : Rule α} (hr : Forgives r) (hr' : Forgives r') :
    Forgives (if p then r else r') := by
  split
  · exact hr
  · exact hr'

theorem failLimit (e : LimitError) : Forgives (failLimit e : Rule α) :=
  fun _ _ _ _ _ hrun => nomatch hrun

theorem limits : Forgives limits :=
  of_ok fun _ c => ⟨_, c, rfl⟩

theorem passes : Forgives passes :=
  of_ok fun _ c => ⟨_, c, rfl⟩

theorem lexeme : Forgives lexeme :=
  of_ok fun _ c => ⟨_, c, rfl⟩

theorem unexpected (expected : String) : Forgives (unexpected expected) :=
  of_ok fun _ c => ⟨_, c, rfl⟩

theorem atEnd : Forgives atEnd :=
  of_ok fun _ c => ⟨_, c, rfl⟩

theorem report (e : SyntaxError) : Forgives (report e) :=
  of_ok fun _ _ => ⟨(), _, rfl⟩

theorem advance : Forgives advance := by
  refine of_ok fun s c => ?_
  obtain ⟨rest, _, _, _, _, _, _⟩ := c
  cases rest with
  | nil | cons _ _ => exact ⟨_, _, rfl⟩

theorem accept (t : Terminal) : Forgives (accept t) := by
  have sees : Forgives (sees t) := of_ok fun _ c => ⟨_, c, rfl⟩
  refine sees.bind fun b => ite ?_ (pure _)
  exact advance.bind fun _ => pure _

theorem checkLimit (kind : LimitKind) (value : Nat) (span : Span) :
    Forgives (checkLimit kind value span) := by
  refine limits.bind fun l => ?_
  split
  · exact pure ()
  · exact failLimit _

theorem checkSize (size : Nat) (span : Span) : Forgives (checkSize size span) :=
  checkLimit _ _ _

theorem recordNode (span : Span) : Forgives (recordNode span) := by
  have count : Forgives (modify fun c => { c with usage := c.usage.addNode } : Rule Unit) :=
    of_ok fun _ _ => ⟨(), _, rfl⟩
  have cursor : Forgives (get : Rule Cursor) := of_ok fun _ c => ⟨c, c, rfl⟩
  exact count.bind fun _ => cursor.bind fun c => checkLimit _ _ _

theorem tooManyPasses : Forgives (tooManyPasses : Rule α) := by
  have peek : Forgives peek := of_ok fun _ c => ⟨_, c, rfl⟩
  exact limits.bind fun _ => peek.bind fun _ => failLimit _

theorem bracket {before after : Cursor → Cursor} {r : Rule α} (hr : Forgives r) :
    Forgives (bracket before after r) := by
  intro s c e c' hs hrun
  rw [bracket_apply] at hrun
  cases inner : r s (before c) with
  | ok a c₁ =>
    rw [inner] at hrun
    cases hrun
  | error f c₁ =>
    rw [inner] at hrun
    cases hrun
    exact hr hs inner

theorem repeating {look : α → Rule (β ⊕ γ)} {step : α → γ → Rule (β ⊕ α)}
    (hlook : ∀ a, Forgives (look a)) (hstep : ∀ a x, Forgives (step a x)) (n : Nat) (a : α) :
    Forgives (repeating look step n a) := by
  induction n generalizing a with
  | zero =>
    unfold Grammar.repeating
    refine (hlook a).bind fun x => ?_
    cases x with
    | inl b => exact pure b
    | inr x => exact tooManyPasses
  | succ n ih =>
    unfold Grammar.repeating
    refine (hlook a).bind fun x => ?_
    cases x with
    | inl b => exact pure b
    | inr x =>
      refine (hstep a x).bind fun y => ?_
      cases y with
      | inl b => exact pure b
      | inr a' => exact ih a'

theorem many {more : Rule Bool} {item : Nat → Rule (List α)} (hmore : Forgives more)
    (hitem : ∀ size, Forgives (item size)) (n size : Nat) : Forgives (many more item n size) := by
  induction n generalizing size with
  | zero =>
    unfold Grammar.many
    exact hmore.bind fun b => ite tooManyPasses (pure _)
  | succ n ih =>
    unfold Grammar.many
    refine hmore.bind fun b => ite ?_ (pure _)
    exact (hitem size).bind fun xs => (ih _).bind fun ys => pure _

/-! ### Recovery -/

theorem skipTo (stops : Lexeme → Bool) (pastSemicolon : Bool) :
    Forgives (skipTo stops pastSemicolon) := by
  refine passes.bind fun n => repeating (fun _ => ?_) (fun _ l => ?_) n ()
  · exact lexeme.bind fun l => pure _
  · refine ite ?_ (ite (pure _) ?_)
    all_goals exact advance.bind fun _ => pure _

theorem resumeAfter (e : SyntaxError) (start : Nat) (stops : Lexeme → Bool)
    (pastSemicolon : Bool) : Forgives (resumeAfter e start stops pastSemicolon) := by
  have cursor : Forgives (get : Rule Cursor) := of_ok fun _ c => ⟨c, c, rfl⟩
  refine (report e).bind fun _ => (skipTo stops pastSemicolon).bind fun _ => ?_
  refine cursor.bind fun c => atEnd.bind fun b => ite ?_ (pure _)
  exact advance.bind fun _ => pure _

/-- Whatever the rule ends with, a syntax error is recovered from. -/
theorem recovering (r : Rule α) (stops : Lexeme → Bool) (pastSemicolon : Bool) :
    Forgives (recovering stops pastSemicolon r) := by
  intro s c e c' hs hrun
  unfold Grammar.recovering at hrun
  split at hrun
  · cases hrun
  · next e' c₁ _ =>
    rw [if_pos hs] at hrun
    split at hrun
    · cases hrun
    · next fault c₂ resumed =>
      cases hrun
      exact resumeAfter e' c.index stops pastSemicolon hs resumed
  · next fault c₁ other run =>
    cases hrun
    exact other e rfl

/-! ### Statements -/

theorem statementList (statement : Rule Stmt) : Forgives (statementList statement) := by
  refine passes.bind fun n => many ?_ (fun size => ?_) n 0
  · exact lexeme.bind fun l => ite (pure _) ((pure _).bind fun b => pure _)
  · refine (recovering statement _ _).bind fun o => ?_
    cases o with
    | none => exact pure _
    | some stmt => exact (checkSize _ _).bind fun _ => pure _

theorem checkSizes (size : Nat) (stmts : List Stmt) : Forgives (checkSizes size stmts) := by
  induction stmts generalizing size with
  | nil => exact pure ()
  | cons stmt stmts ih => exact (checkSize _ _).bind fun _ => ih _

theorem afterStray (statement : Rule Stmt) (ends : List Keyword) (size : Nat) :
    Forgives (afterStray statement ends size) := by
  refine (unexpected _).bind fun e => (report e).bind fun _ => advance.bind fun _ => ?_
  refine (accept _).bind fun _ => (statementList statement).bind fun stmts => ?_
  exact (checkSizes size stmts).bind fun _ => pure _

theorem bodyWith (statement : Rule Stmt) (ends : List Keyword) :
    Forgives (bodyWith statement ends) := by
  have more : Forgives (seesStray ends) := of_ok fun _ c => ⟨_, c, rfl⟩
  refine (statementList statement).bind fun first => passes.bind fun n => ?_
  exact (many more (afterStray statement ends) n _).bind fun others => pure _

theorem finishText : Forgives finishText := by
  intro s c e c' hs hrun
  cases h : (s.next c).lexeme.isFinish with
  | true =>
    rw [finishText_done h] at hrun
    cases hrun
  | false =>
    have lenient := finishText_lenient (s := s) h
    rw [show s.lenient = s by rw [Setting.lenient, ← hs]] at lenient
    rw [lenient] at hrun
    cases hrun

theorem allStatements (levels : Nat) (declared : List String) :
    Forgives (allStatements levels declared) := by
  refine (bracket (bodyWith _ _)).bind fun stmts => ?_
  exact finishText.bind fun _ => pure _

/-! ### Declarations -/

theorem declarationsUntil (close : Option Keyword) (declaration : Rule (Option Decl)) :
    Forgives (declarationsUntil close declaration) := by
  refine passes.bind fun n => many (lexeme.bind fun l => pure _) (fun size => ?_) n 0
  refine (recovering declaration _ _).bind fun o => ?_
  split
  · exact (checkSize _ _).bind fun _ => pure _
  · exact pure _

theorem compilationUnit (levels : Nat) : Forgives (compilationUnit levels) := by
  have text : Forgives sourceText := of_ok fun s c => ⟨s.source, c, rfl⟩
  refine (declarationsUntil none _).bind fun decls => text.bind fun _ => ?_
  exact (recordNode _).bind fun _ => pure _

end Forgives

end Grammar

/-! ### The scan -/

/-- Numbers that cannot be read are the only fault of the scan. -/
theorem Scanner.run_fault {d : Dialect} {n : Nat} {s : Scanner} {f : Fault}
    (h : (s.run d n).2 = some f) : f = .unreadableDigits := by
  obtain ⟨m, -, stopped⟩ := Scans.of_run_fault (Prod.ext rfl h)
  exact (Scanner.next_error_iff.1 stopped).1

end Plc

/-
Where rules lead.

However a rule ends, it has led from one place of the reading to another.  All that rules do to a
place is done by a few steps; so a relation between places that holds over each of these steps, and
carries on from one step to the next, holds between where a rule begins and where it ends.

* `Course` — a relation that holds over every step;
* `Leads` — the relation holds from where a rule begins to where it ends;
* `Leads.bind`, `Leads.recovering`, `Course.bracket` — rules made of others;
* `Course.grammar` — every rule leads along a course.

A bound that is passed ends the reading where it is, with constructs open around it and with one
node too many.  What is said of the other runs only need not hold over the steps that such a bound
ends.

* `Passage` — a relation that holds over every step that goes on, and around what is opened and
  closed again;
* `Arrives` — the relation holds from where a rule begins to where it ends, unless a bound ends it;
* `Passage.grammar` — every rule arrives.
-/
import Plc.Proofs.Grammar.Congruence
import Plc.Proofs.Grammar.Run

namespace Plc.Grammar

variable {α β : Type} {K : Setting → Cursor → Cursor → Prop}

/-- However the rule ends, the relation holds between the place it began at and the one it ends
at. -/
def Leads (K : Setting → Cursor → Cursor → Prop) (r : Rule α) : Prop :=
  ∀ s c, K s c (cursorAfter (r s c))

namespace Leads

variable (trans : ∀ {s c c' c''}, K s c c' → K s c' c'' → K s c c'')
include trans

theorem bind {r : Rule α} {f : α → Rule β} (hr : Leads K r) (hf : ∀ a, Leads K (f a)) :
    Leads K (r >>= f) := by
  intro s c
  have first := hr s c
  rw [bind_apply]
  cases hrun : r s c with
  | ok a c' =>
    rw [hrun] at first
    exact trans first (hf a s c')
  | error e c' =>
    rw [hrun] at first
    exact first

theorem recovering {r : Rule α} {stops : Lexeme → Bool} {pastSemicolon : Bool}
    (resumes : ∀ e start, Leads K (resumeAfter e start stops pastSemicolon)) (hr : Leads K r) :
    Leads K (recovering stops pastSemicolon r) := by
  intro s c
  have first := hr s c
  unfold Grammar.recovering
  cases hrun : r s c with
  | ok a c' =>
    rw [hrun] at first
    exact first
  | error f c' =>
    rw [hrun] at first
    -- of all faults only an error of the grammar is recovered from
    cases f with
    | grammar e =>
      have on := resumes e c.index s c'
      dsimp only
      split
      · cases hon : resumeAfter e c.index stops pastSemicolon s c' with
        | ok _ c'' | error _ c'' =>
          rw [hon] at on
          exact trans first on
      · exact first
    | limit _ | unreadableDigits | infiniteDuration | endless => exact first

end Leads

/-- The relation holds over every step, and carries on from one to the next. -/
structure Course (K : Setting → Cursor → Cursor → Prop) : Prop where
  trans {s : Setting} {c c' c'' : Cursor} : K s c c' → K s c' c'' → K s c c''
  /-- Constructs are opened and closed, and names declared and forgotten, while nothing is read. -/
  aside (s : Setting) (c : Cursor) (usage : Usage) (declared : List (List String)) :
    usage.nodes = c.usage.nodes → K s c { c with usage, declared }
  count (s : Setting) (c : Cursor) : K s c { c with usage := c.usage.addNode }
  advance : Leads K advance
  take (s : Setting) (c : Cursor) (pragmas : List (Nat × List Token)) :
    pragmas ⊆ c.pragmas → K s c { c with pragmas }
  note (s : Setting) (c : Cursor) (e : SyntaxError) : K s c { c with errors := c.errors ++ [e] }

namespace Course

theorem ite {p : Prop} [Decidable p] {r r' : Rule α} (_ : Course K) (hr : Leads K r)
    (hr' : Leads K r') : Leads K (if p then r else r') := by
  split
  · exact hr
  · exact hr'

/-- Two relations at once. -/
theorem and {K' : Setting → Cursor → Cursor → Prop} (h : Course K) (h' : Course K') :
    Course fun s c c' => K s c c' ∧ K' s c c' where
  trans first second := ⟨h.trans first.1 second.1, h'.trans first.2 second.2⟩
  aside s c usage declared same :=
    ⟨h.aside s c usage declared same, h'.aside s c usage declared same⟩
  count s c := ⟨h.count s c, h'.count s c⟩
  advance s c := ⟨h.advance s c, h'.advance s c⟩
  take s c pragmas fewer := ⟨h.take s c pragmas fewer, h'.take s c pragmas fewer⟩
  note s c e := ⟨h.note s c e, h'.note s c e⟩

variable (h : Course K)
include h

theorem still {r : Rule α} (hr : ∀ s c, cursorAfter (r s c) = c) : Leads K r := by
  intro s c
  rw [hr]
  exact h.aside s c c.usage c.declared rfl

/-! ### Rules made of others -/

theorem bind {r : Rule α} {f : α → Rule β} (hr : Leads K r) (hf : ∀ a, Leads K (f a)) :
    Leads K (r >>= f) :=
  Leads.bind (K := K) h.trans hr hf

theorem bracket {r : Rule α} {before after : Cursor → Cursor} (hb : ∀ s c, K s c (before c))
    (ha : ∀ s c, K s c (after c)) (hr : Leads K r) : Leads K (bracket before after r) := by
  intro s c
  rw [bracket_apply, cursorAfter_closing]
  exact h.trans (h.trans (hb s c) (hr s (before c))) (ha s _)

/-! ### Steps -/

theorem takeWaiting : Leads K takeWaiting := by
  intro s c
  rw [takeWaiting_apply]
  cases c.pragmas.lookup c.index with
  | none => exact h.take s c c.pragmas (List.Subset.refl _)
  | some ts => exact h.take s c _ List.filter_sublist.subset

theorem checkLimit (kind : LimitKind) (value : Nat) (span : Span) :
    Leads K (checkLimit kind value span) := by
  refine h.still fun s c => ?_
  rw [checkLimit_apply]
  cases s.limits.check kind value span <;> rfl

theorem recordNode (span : Span) : Leads K (recordNode span) := by
  have count : Leads K (modify fun c => { c with usage := c.usage.addNode } : Rule Unit) := h.count
  have cursor : Leads K (get : Rule Cursor) := h.still fun _ _ => rfl
  exact h.bind count fun _ => h.bind cursor fun c => h.checkLimit _ _ _

theorem congruence : Congruence fun _ _ (r : Rule _) => Leads K r := by
  refine Steps.congruence ?_ (h.still fun _ _ => rfl)
  exact {
    pure := fun _ => h.still fun _ _ => rfl
    bind := h.bind
    throw := fun _ => h.still fun _ _ => rfl
    nested := h.bracket (fun s c => h.aside s c _ _ rfl) fun s c => h.aside s c _ _ rfl
    declaring := fun _ =>
      h.bracket (fun s c => h.aside s c _ _ rfl) fun s c => h.aside s c _ _ rfl
    sourceText := h.still fun _ _ => rfl
    dialect := h.still fun _ _ => rfl
    lastStop := h.still fun _ _ => rfl
    tokensLeft := h.still fun _ _ => rfl
    peekAt := fun _ => h.still fun _ _ => rfl
    advance := h.advance
    takeWaiting := h.takeWaiting
    recordNode := h.recordNode
    checkLimit := h.checkLimit
    tooManyPasses := h.still fun _ _ => rfl
    tooDeep := fun s c => h.aside s c _ _ rfl }

/-! ### Recovery -/

/-- What is done after an error is recorded. -/
theorem resumed (start : Nat) (stops : Lexeme → Bool) (pastSemicolon : Bool) : Leads K (do
    skipTo stops pastSemicolon
    if (← get).index == start && !(← atEnd) then
      let _ ← Grammar.advance) := by
  have cursor : Leads K (get : Rule Cursor) := h.still fun _ _ => rfl
  have stays : Leads K (Pure.pure () : Rule Unit) := h.still fun _ _ => rfl
  refine h.bind (h.congruence.skipTo_rel stops pastSemicolon) fun _ => ?_
  refine h.bind cursor fun _ => h.bind h.congruence.atEnd_rel fun _ => ?_
  exact h.ite (h.bind h.advance fun _ => stays) stays

theorem resumeAfter (e : SyntaxError) (start : Nat) (stops : Lexeme → Bool) (pastSemicolon : Bool) :
    Leads K (resumeAfter e start stops pastSemicolon) :=
  have note : Leads K (report e) := fun s c => h.note s c e
  h.bind note fun _ => h.resumed start stops pastSemicolon

theorem recovering {r : Rule α} (stops : Lexeme → Bool) (pastSemicolon : Bool) (hr : Leads K r) :
    Leads K (recovering stops pastSemicolon r) :=
  Leads.recovering (K := K) h.trans (fun e start => h.resumeAfter e start stops pastSemicolon) hr

/-- Every rule leads along the course. -/
theorem grammar : GrammarCongruence fun _ _ (r : Rule _) => Leads K r :=
  { h.congruence with
    isDeclared := fun _ => h.still fun _ _ => rfl
    recovering := h.recovering
    mode := h.still fun _ _ => rfl
    report := fun e s c => h.note s c e }

end Course

/-! ### Runs that no bound ends -/

/-- Unless a bound ends the rule, the relation holds between the place it began at and the one it
ends at. -/
def Arrives (K : Setting → Cursor → Cursor → Prop) (r : Rule α) : Prop :=
  ∀ s c, Settled (r s c) → K s c (cursorAfter (r s c))

/-- The relation holds over every step after which the reading may go on, and carries on from one to
the next. -/
structure Passage (K : Setting → Cursor → Cursor → Prop) : Prop where
  refl (s : Setting) (c : Cursor) : K s c c
  trans {s : Setting} {c c' c'' : Cursor} : K s c c' → K s c' c'' → K s c c''
  /-- A construct is closed where its inside has been read. -/
  nested {s : Setting} {c c' : Cursor} : K s c.enter c' → K s c c'.leave
  declaring {s : Setting} {c c' : Cursor} (names : List String) :
    K s { c with declared := names :: c.declared } c' →
      K s c { c' with declared := c'.declared.tail }
  count (s : Setting) (c : Cursor) : c.usage.addNode.nodes ≤ s.limits.maxNodes →
    K s c { c with usage := c.usage.addNode }
  advance : Leads K advance
  take (s : Setting) (c : Cursor) (pragmas : List (Nat × List Token)) :
    pragmas ⊆ c.pragmas → K s c { c with pragmas }
  note (s : Setting) (c : Cursor) (e : SyntaxError) : K s c { c with errors := c.errors ++ [e] }

namespace Passage

theorem ite {p : Prop} [Decidable p] {r r' : Rule α} (_ : Passage K) (hr : Arrives K r)
    (hr' : Arrives K r') : Arrives K (if p then r else r') := by
  split
  · exact hr
  · exact hr'

theorem bracket {r : Rule α} {before after : Cursor → Cursor} (_ : Passage K)
    (around : ∀ {s c c'}, K s (before c) c' → K s c (after c')) (hr : Arrives K r) :
    Arrives K (bracket before after r) := by
  intro s c settled
  rw [bracket_apply] at settled ⊢
  rw [cursorAfter_closing]
  exact around (hr s (before c) settled.of_closing)

/-- A rule that a bound always ends. -/
theorem exceeds {r : Rule α} (_ : Passage K) (hr : ∀ s c, ∃ e c', r s c = .error (.limit e) c') :
    Arrives K r := by
  intro s c settled
  obtain ⟨e, c', ends⟩ := hr s c
  exact absurd ends (settled e c')

variable (h : Passage K)
include h

theorem still {r : Rule α} (hr : ∀ s c, cursorAfter (r s c) = c) : Arrives K r := by
  intro s c _
  rw [hr]
  exact h.refl s c

theorem bind {r : Rule α} {f : α → Rule β} (hr : Arrives K r) (hf : ∀ a, Arrives K (f a)) :
    Arrives K (r >>= f) := by
  intro s c settled
  have first := hr s c settled.of_bind
  rw [bind_apply] at settled ⊢
  cases hrun : r s c with
  | ok a c' =>
    rw [hrun] at first settled
    exact h.trans first (hf a s c' settled)
  | error e c' =>
    rw [hrun] at first
    exact first

theorem nested_rel {r : Rule α} (hr : Arrives K r) : Arrives K (Grammar.nested r) :=
  h.bracket h.nested hr

theorem declaring_rel {r : Rule α} (names : List String) (hr : Arrives K r) :
    Arrives K (Grammar.declaring names r) :=
  h.bracket (h.declaring names) hr

theorem takeWaiting : Arrives K takeWaiting := by
  intro s c _
  rw [takeWaiting_apply]
  cases c.pragmas.lookup c.index with
  | none => exact h.refl s c
  | some ts => exact h.take s c _ List.filter_sublist.subset

theorem checkLimit (kind : LimitKind) (value : Nat) (span : Span) :
    Arrives K (checkLimit kind value span) := by
  refine h.still fun s c => ?_
  rw [checkLimit_apply]
  cases s.limits.check kind value span <;> rfl

/-- A count that is refused ends the run. -/
theorem recordNode (span : Span) : Arrives K (recordNode span) := by
  intro s c settled
  have run : Grammar.recordNode span s c = Grammar.checkLimit .nodes c.usage.addNode.nodes span s
    { c with usage := c.usage.addNode } := rfl
  rw [run, checkLimit_apply] at settled ⊢
  cases hcheck : s.limits.check .nodes c.usage.addNode.nodes span with
  | ok _ => exact h.count s c (Limits.check_eq_ok_iff.1 hcheck)
  | error e =>
    rw [hcheck] at settled
    exact absurd rfl (settled e _)

theorem congruence : Congruence fun _ _ (r : Rule _) => Arrives K r := by
  refine Steps.congruence ?_ (h.still fun _ _ => rfl)
  exact {
    pure := fun _ => h.still fun _ _ => rfl
    bind := h.bind
    throw := fun _ => h.still fun _ _ => rfl
    nested := h.nested_rel
    declaring := h.declaring_rel
    sourceText := h.still fun _ _ => rfl
    dialect := h.still fun _ _ => rfl
    lastStop := h.still fun _ _ => rfl
    tokensLeft := h.still fun _ _ => rfl
    peekAt := fun _ => h.still fun _ _ => rfl
    advance := fun s c _ => h.advance s c
    takeWaiting := h.takeWaiting
    recordNode := h.recordNode
    checkLimit := h.checkLimit
    tooManyPasses := h.still fun _ _ => rfl
    tooDeep := h.exceeds fun _ c => ⟨_, c.enter, rfl⟩ }

/-! ### Recovery -/

theorem resumeAfter (e : SyntaxError) (start : Nat) (stops : Lexeme → Bool) (pastSemicolon : Bool) :
    Arrives K (resumeAfter e start stops pastSemicolon) := by
  have note : Arrives K (report e) := fun s c _ => h.note s c e
  have cursor : Arrives K (get : Rule Cursor) := h.still fun _ _ => rfl
  have stays : Arrives K (Pure.pure () : Rule Unit) := h.still fun _ _ => rfl
  have advance : Arrives K Grammar.advance := fun s c _ => h.advance s c
  refine h.bind note fun _ => ?_
  refine h.bind (h.congruence.skipTo_rel stops pastSemicolon) fun _ => ?_
  refine h.bind cursor fun _ => h.bind h.congruence.atEnd_rel fun _ => ?_
  exact h.ite (h.bind advance fun _ => stays) stays

/-- Where an error is recovered from, the reading has come from the beginning of the rule to the
error, and goes on from there. -/
theorem recovering {r : Rule α} (stops : Lexeme → Bool) (pastSemicolon : Bool) (hr : Arrives K r) :
    Arrives K (recovering stops pastSemicolon r) := by
  intro s c settled
  have first := hr s c
  unfold Grammar.recovering at settled ⊢
  cases hrun : r s c with
  | ok a c' =>
    rw [hrun] at first
    exact first (.ok a c')
  | error f c' =>
    rw [hrun] at first settled
    -- Of all faults only an error of the grammar is recovered from.
    cases f with
    | limit _ | unreadableDigits | infiniteDuration | endless => exact first settled.of_error
    | grammar e =>
      have on := h.resumeAfter e c.index stops pastSemicolon s c'
      dsimp only at settled ⊢
      cases hmode : s.recovers with
      | false => exact first (.grammar e c')
      | true =>
        rw [hmode] at settled
        cases hon : Grammar.resumeAfter e c.index stops pastSemicolon s c' with
        | ok u c'' =>
          rw [hon] at on
          exact h.trans (first (.grammar e c')) (on (.ok u c''))
        | error f c'' =>
          rw [hon] at on settled
          exact h.trans (first (.grammar e c')) (on settled.of_error)

/-- Every rule that no bound ends arrives. -/
theorem grammar : GrammarCongruence fun _ _ (r : Rule _) => Arrives K r :=
  { h.congruence with
    isDeclared := fun _ => h.still fun _ _ => rfl
    recovering := h.recovering
    mode := h.still fun _ _ => rfl
    report := fun e s c _ => h.note s c e }

end Passage

end Plc.Grammar

/-
Running rules.

What a rule gives from a setting and a cursor, step by step.

* `bind_apply`, `bind_eq_ok_iff` — two rules in a row;
* `bracket_apply`, `takeWaiting_apply` — a rule in brackets, and the annotations taken once;
* `Settled` — a run that was ended by no bound;
* `run_eq_ok_iff` — a whole text;
* `many_done`, `many_succ`, `repeating_done` — loops.
-/
import Plc.Reading

namespace Plc.Grammar

variable {α β : Type}

/-- The cursor after a run, whether it succeeded or failed. -/
def cursorAfter : EStateM.Result Fault Cursor α → Cursor
  | .ok _ c | .error _ c => c

theorem bind_apply (r : Rule α) (f : α → Rule β) (s : Setting) (c : Cursor) :
    (r >>= f) s c = match r s c with
      | .ok a c' => f a s c'
      | .error e c' => .error e c' := by
  show EStateM.bind (r s) (fun a => f a s) c = _
  rw [EStateM.bind]
  cases r s c <;> rfl

theorem pure_apply (a : α) (s : Setting) (c : Cursor) : (pure a : Rule α) s c = .ok a c := rfl

/-- A run after which the cursor is changed. -/
def closing (after : Cursor → Cursor) :
    EStateM.Result Fault Cursor α → EStateM.Result Fault Cursor α
  | .ok a c => .ok a (after c)
  | .error f c => .error f (after c)

theorem bracket_apply (before after : Cursor → Cursor) (r : Rule α) (s : Setting) (c : Cursor) :
    bracket before after r s c = closing after (r s (before c)) := by
  unfold bracket closing
  cases r s (before c) <;> rfl

theorem cursorAfter_closing (after : Cursor → Cursor) (run : EStateM.Result Fault Cursor α) :
    cursorAfter (closing after run) = after (cursorAfter run) := by
  cases run <;> rfl

theorem bind_eq_ok_iff {r : Rule α} {f : α → Rule β} {s : Setting} {c c' : Cursor} {b : β} :
    (r >>= f) s c = .ok b c' ↔ ∃ a c₁, r s c = .ok a c₁ ∧ f a s c₁ = .ok b c' := by
  rw [bind_apply]
  cases r s c with
  | ok a c₁ =>
    constructor
    · exact fun h => ⟨a, c₁, rfl, h⟩
    · rintro ⟨_, _, same, h⟩
      cases same
      exact h
  | error f c₁ =>
    constructor
    · rintro ⟨⟩
    · rintro ⟨_, _, ⟨⟩, -⟩

theorem checkLimit_apply (kind : LimitKind) (value : Nat) (span : Span) (s : Setting) (c : Cursor) :
    checkLimit kind value span s c = match s.limits.check kind value span with
      | .ok () => .ok () c
      | .error e => .error (.limit e) c := by
  show (match s.limits.check kind value span with
    | .ok () => _
    | .error e => _ : Rule Unit) s c = _
  cases s.limits.check kind value span <;> rfl

theorem checkLimit_eq_ok {kind : LimitKind} {value : Nat} {span : Span} {s : Setting}
    {c c' : Cursor} {u : Unit} (h : checkLimit kind value span s c = .ok u c') :
    value ≤ s.limits.bound kind ∧ c' = c := by
  rw [checkLimit_apply] at h
  cases hcheck : s.limits.check kind value span with
  | ok _ =>
    rw [hcheck] at h
    cases h
    exact ⟨Limits.check_eq_ok_iff.1 hcheck, rfl⟩
  | error e =>
    rw [hcheck] at h
    cases h

/-! ### Runs that no bound ends -/

/-- The run has a result, or was ended by something other than a bound. -/
def Settled (run : EStateM.Result Fault Cursor α) : Prop :=
  ∀ e c, run ≠ .error (.limit e) c

instance (run : EStateM.Result Fault Cursor α) : Decidable (Settled run) :=
  match run with
  | .error (.limit e) c => isFalse fun settled => settled e c rfl
  | .error (.grammar _) _ | .error .unreadableDigits _ | .error .infiniteDuration _
  | .error .endless _ | .ok _ _ =>
    isTrue (by rintro e c ⟨⟩)

theorem Settled.ok (a : α) (c : Cursor) : Settled (.ok a c) := by
  rintro e c' ⟨⟩

theorem Settled.grammar (e : SyntaxError) (c : Cursor) :
    Settled (.error (.grammar e) c : EStateM.Result Fault Cursor α) := by
  rintro e' c' ⟨⟩

/-- What ends a run is no bound, whatever the run would have given. -/
theorem Settled.of_error {f : Fault} {c : Cursor}
    (h : Settled (.error f c : EStateM.Result Fault Cursor α)) :
    Settled (.error f c : EStateM.Result Fault Cursor β) := by
  rintro e c' ⟨⟩
  exact h e c rfl

/-- A bound that ended the first part would have ended the whole. -/
theorem Settled.of_bind {r : Rule α} {f : α → Rule β} {s : Setting} {c : Cursor}
    (h : Settled ((r >>= f) s c)) : Settled (r s c) := by
  intro e c' ends
  rw [bind_apply, ends] at h
  exact h e c' rfl

theorem Settled.of_closing {after : Cursor → Cursor} {run : EStateM.Result Fault Cursor α}
    (h : Settled (closing after run)) : Settled run := by
  rintro e c rfl
  exact h e (after c) rfl

/-! ### Whole texts -/

/-- What a run on a whole text gives: the text is cut into tokens, and the rule reads them. -/
theorem run_eq_ok_iff {rule : Rule α} {source : List Char} {l : Limits} {d : Dialect}
    {recovers : Bool} {a : α} {errors : List SyntaxError} :
    run rule source l d recovers = .ok (a, errors) ↔
      ∃ ts c, tokensWithin l d source = .ok ts ∧
        rule ⟨source, d, l, recovers, ts.getLastD (Scanner.finish source.length)⟩ (.before ts) =
          .ok a c ∧ c.errors = errors := by
  rw [run]
  cases tokensWithin l d source with
  | error f => exact ⟨nofun, nofun⟩
  | ok ts =>
    dsimp only
    cases hrun : rule ⟨source, d, l, recovers, ts.getLastD (Scanner.finish source.length)⟩
        (.before ts) with
    | error f c =>
      refine ⟨nofun, ?_⟩
      rintro ⟨_, _, same, hok, -⟩
      cases same
      rw [hrun] at hok
      cases hok
    | ok b c =>
      constructor
      · intro same
        cases same
        exact ⟨ts, c, rfl, hrun, rfl⟩
      · rintro ⟨_, _, same, hok, rfl⟩
        cases same
        rw [hrun] at hok
        cases hok
        rfl

/-- Within the limits a text has all its tokens. -/
theorem tokens_of_tokensWithin {l : Limits} {d : Dialect} {source : List Char} {ts : List Token}
    (h : tokensWithin l d source = .ok ts) : tokens d source = .ok ts := by
  unfold tokensWithin at h
  unfold tokens
  split at h
  · cases h
  · cases hscan : scan d source with
    | mk all fault =>
      rw [hscan] at h
      dsimp only at h
      split at h
      · cases h
      · split at h
        · cases h
        · cases h
          rfl

theorem liftPragmas_sublist (index : Nat) (pending ts : List Token) :
    (liftPragmas index pending ts).1.Sublist ts := by
  induction ts generalizing index pending with
  | nil => exact List.Sublist.refl _
  | cons t ts ih =>
    unfold liftPragmas
    split
    · exact (ih _ _).cons t
    · exact (ih _ _).cons_cons t

/-! ### The cursor -/

/-- The token at the cursor. -/
def Setting.next (s : Setting) (c : Cursor) : Token :=
  c.rest.getD 0 s.finish

theorem takeWaiting_apply (s : Setting) (c : Cursor) : takeWaiting s c =
    match c.pragmas.lookup c.index with
    | none => .ok [] c
    | some ts => .ok ts { c with pragmas := c.pragmas.filter (·.1 != c.index) } := by
  unfold takeWaiting
  rw [bind_apply]
  change (match c.pragmas.lookup c.index with
    | none => _
    | some ts => _ : Rule (List Token)) s c = _
  cases c.pragmas.lookup c.index <;> rfl

/-! ### Loops -/

variable {more : Rule Bool} {item : Nat → Rule (List α)} {n size : Nat} {s : Setting} {c : Cursor}

theorem many_done (h : more s c = .ok false c) : many more item n size s c = .ok [] c := by
  cases n with
  | zero | succ n =>
    unfold many
    rw [bind_apply, h]
    rfl

theorem many_zero (h : more s c = .ok true c) :
    ∃ e, many more item 0 size s c = .error (.limit e) c := by
  unfold many
  rw [bind_apply, h]
  exact ⟨_, rfl⟩

theorem many_succ (h : more s c = .ok true c) :
    many more item (n + 1) size s c = (item size >>= fun xs =>
      many more item n (size + xs.length) >>= fun ys => pure (xs ++ ys)) s c := by
  rw [many, bind_apply, h]
  rfl

theorem repeating_done {α β γ : Type} {look : α → Rule (β ⊕ γ)} {step : α → γ → Rule (β ⊕ α)} {n : Nat}
    {a : α} {b : β} {s : Setting} {c : Cursor} (h : look a s c = .ok (.inl b) c) :
    repeating look step n a s c = .ok b c := by
  cases n with
  | zero | succ n =>
    unfold repeating
    rw [bind_apply, h]
    rfl

end Plc.Grammar

namespace Plc.Reading

open Grammar

theorem strictly_eq_ok_iff {α : Type} {r : Reading} {rule : Nat → Rule α} {a : α} :
    r.strictly rule = .ok a ↔
      ∃ errors, run (rule r.limits.maxDepth) r.source r.limits r.dialect false = .ok (a, errors) := by
  unfold strictly
  cases run (rule r.limits.maxDepth) r.source r.limits r.dialect false with
  | error f => exact ⟨nofun, nofun⟩
  | ok x =>
    constructor
    · intro same
      cases same
      exact ⟨x.2, rfl⟩
    · rintro ⟨errors, same⟩
      cases same
      rfl

end Plc.Reading

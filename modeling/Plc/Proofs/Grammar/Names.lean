/-
Names around a rule.

A rule may declare names for a part of what it reads, and they are forgotten behind that part.  So the
names that are declared where a rule begins are those that are declared where it ends, however it ends.

* `KeepsNames` — the names are the same behind a rule;
* `keepsNames` — every rule keeps them.
-/
import Plc.Proofs.Grammar.Course
import Plc.Proofs.Grammar.DeclCongruence

namespace Plc.Grammar

variable {α β : Type}

/-- The names declared around a rule are the same behind it. -/
def KeepsNames (r : Rule α) : Prop :=
  ∀ s c, (cursorAfter (r s c)).declared = c.declared

namespace KeepsNames

variable {r : Rule α}

theorem ok (h : KeepsNames r) {s : Setting} {c d : Cursor} {a : α} (run : r s c = .ok a d) :
    d.declared = c.declared := by
  have same := h s c
  rw [run] at same
  exact same

theorem bind {f : α → Rule β} (hr : KeepsNames r) (hf : ∀ a, KeepsNames (f a)) :
    KeepsNames (r >>= f) :=
  Leads.bind (K := fun _ c c' => c'.declared = c.declared)
    (fun first second => second.trans first) hr hf

/-- Names are declared, and forgotten. -/
theorem declaring (names : List String) (hr : KeepsNames r) : KeepsNames (declaring names r) := by
  intro s c
  unfold Grammar.declaring
  rw [bracket_apply, cursorAfter_closing, hr s]
  rfl

theorem nested (hr : KeepsNames r) : KeepsNames (nested r) := by
  intro s c
  unfold Grammar.nested
  rw [bracket_apply, cursorAfter_closing]
  exact hr s c.enter

theorem advance : KeepsNames advance := by
  intro s c
  obtain ⟨rest, _, _, _, _, _, _⟩ := c
  cases rest <;> rfl

theorem takeWaiting : KeepsNames takeWaiting := by
  intro s c
  rw [takeWaiting_apply]
  cases c.pragmas.lookup c.index <;> rfl

theorem checkLimit (kind : LimitKind) (value : Nat) (span : Span) :
    KeepsNames (checkLimit kind value span) := by
  intro s c
  rw [checkLimit_apply]
  cases s.limits.check kind value span <;> rfl

theorem congruence : Congruence fun _ _ (r : Rule _) => KeepsNames r := by
  refine Steps.congruence ?_ fun _ _ => rfl
  exact {
    pure := fun _ _ _ => rfl
    bind := bind
    throw := fun _ _ _ => rfl
    nested := nested
    declaring := declaring
    sourceText := fun _ _ => rfl
    dialect := fun _ _ => rfl
    lastStop := fun _ _ => rfl
    tokensLeft := fun _ _ => rfl
    peekAt := fun _ _ _ => rfl
    advance := advance
    takeWaiting := takeWaiting
    recordNode := fun span s c => checkLimit .nodes c.usage.addNode.nodes span s _
    checkLimit := checkLimit
    tooManyPasses := fun _ _ => rfl
    tooDeep := fun _ _ => rfl }

theorem resumeAfter (e : SyntaxError) (start : Nat) (stops : Lexeme → Bool) (pastSemicolon : Bool) :
    KeepsNames (resumeAfter e start stops pastSemicolon) := by
  have note : KeepsNames (report e) := fun _ _ => rfl
  have cursor : KeepsNames (get : Rule Cursor) := fun _ _ => rfl
  have stays : KeepsNames (pure () : Rule Unit) := fun _ _ => rfl
  refine note.bind fun _ => bind (congruence.skipTo_rel stops pastSemicolon) fun _ => ?_
  refine cursor.bind fun c => bind congruence.atEnd_rel fun b => ?_
  split
  · exact advance.bind fun _ => stays
  · exact stays

theorem recovering (stops : Lexeme → Bool) (pastSemicolon : Bool) (hr : KeepsNames r) :
    KeepsNames (recovering stops pastSemicolon r) :=
  Leads.recovering (K := fun _ c c' => c'.declared = c.declared)
    (fun first second => second.trans first)
    (fun e start => resumeAfter e start stops pastSemicolon) hr

end KeepsNames

/-- Every rule keeps the names around it. -/
theorem keepsNames : GrammarCongruence fun _ _ (r : Rule _) => KeepsNames r :=
  { KeepsNames.congruence with
    isDeclared := fun _ _ _ => rfl
    recovering := .recovering
    mode := fun _ _ => rfl
    report := fun _ _ _ => rfl }

end Plc.Grammar

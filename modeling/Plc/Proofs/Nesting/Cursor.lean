/-
Places in a reading.

At every place in a reading the tokens left are stretches of the text, one after another, and the
last token read ends before them.  A rule either stays where it is or passes over the next token,
however it ends.

* `InOrder` — the tokens at a place are in order;
* `Onward` — the second of two places is not before the first;
* `proceeds` — every rule keeps the tokens in order and stays or goes on.
-/
import Plc.Proofs.Grammar.Course
import Plc.Proofs.Grammar.DeclCongruence

namespace Plc.Grammar

variable {α β : Type}

/-! ### Places -/

/-- The tokens left are stretches of the text, one after another, and none of them begins before the
last token read has ended. -/
structure InOrder (s : Setting) (c : Cursor) : Prop where
  finish : s.finish = Scanner.finish s.source.length
  inside : c.lastStop ≤ s.source.length
  goes : ∀ t ∈ c.rest, t.span.start < t.span.stop ∧ t.span.stop ≤ s.source.length
  after : ∀ t ∈ c.rest, c.lastStop ≤ t.span.start
  row : c.rest.Pairwise fun t u => t.span.stop ≤ u.span.start

/-- The second place is the first, or the next token of the first is passed over. -/
def Onward (s : Setting) (c c' : Cursor) : Prop :=
  c'.rest = c.rest ∧ c'.lastStop = c.lastStop ∨ (s.next c).span.stop ≤ c'.lastStop

variable {s x : Setting} {b c c' c'' : Cursor}

theorem next_of_rest (h : c'.rest = c.rest) : s.next c' = s.next c := by
  unfold Setting.next
  rw [h]

theorem next_of_cons {t : Token} {rest : List Token} (h : c.rest = t :: rest) : s.next c = t := by
  unfold Setting.next
  rw [h]
  rfl

namespace InOrder

theorem next_finish (h : InOrder s c) (none : c.rest = []) :
    s.next c = Scanner.finish s.source.length := by
  unfold Setting.next
  rw [none]
  exact h.finish

theorem next_mem (some : c.rest ≠ []) : s.next c ∈ c.rest := by
  obtain ⟨t, rest, parts⟩ := List.exists_cons_of_ne_nil some
  rw [next_of_cons parts, parts]
  exact List.mem_cons_self

theorem next_goes (h : InOrder s c) (some : c.rest ≠ []) :
    (s.next c).span.start < (s.next c).span.stop :=
  (h.goes _ (next_mem some)).1

theorem lastStop_le (h : InOrder s c) : c.lastStop ≤ (s.next c).span.start := by
  by_cases none : c.rest = []
  · rw [h.next_finish none]
    exact h.inside
  · exact h.after _ (next_mem none)

theorem next_inside (h : InOrder s c) : (s.next c).span.stop ≤ s.source.length := by
  by_cases none : c.rest = []
  · rw [h.next_finish none]
    exact Nat.le_refl _
  · exact (h.goes _ (next_mem none)).2

/-- Only the end of the text has no token. -/
theorem some_of_lexeme (h : InOrder s c) (goes : (s.next c).lexeme.isFinish = false) :
    c.rest ≠ [] := by
  intro none
  rw [h.next_finish none] at goes
  cases goes

theorem some_of_eq (h : InOrder s c) {l : Lexeme} (same : (s.next c).lexeme = l)
    (goes : l.isFinish = false) : c.rest ≠ [] :=
  h.some_of_lexeme (same ▸ goes)

theorem of_same (h : InOrder s c) (rest : c'.rest = c.rest) (stop : c'.lastStop = c.lastStop) :
    InOrder s c' := by
  obtain ⟨finish, inside, goes, after, row⟩ := h
  constructor
  · exact finish
  · rwa [stop]
  · rwa [rest]
  · rwa [rest, stop]
  · rwa [rest]

end InOrder

namespace Onward

theorem refl (s : Setting) (c : Cursor) : Onward s c c := .inl ⟨rfl, rfl⟩

theorem trans (h : Onward s c c') (h' : Onward s c' c'') (mid : InOrder s c') : Onward s c c'' := by
  rcases h with ⟨rest, stop⟩ | passed
  · rcases h' with ⟨rest', stop'⟩ | passed'
    · exact .inl ⟨rest'.trans rest, stop'.trans stop⟩
    · exact .inr (next_of_rest rest ▸ passed')
  · rcases h' with ⟨-, stop'⟩ | passed'
    · exact .inr (stop' ▸ passed)
    · have := mid.lastStop_le
      have := (s.next c').span.ordered
      exact .inr (by omega)

theorem lastStop_le (h : Onward s c c') (first : InOrder s c) : c.lastStop ≤ c'.lastStop := by
  rcases h with ⟨-, stop⟩ | passed
  · exact Nat.le_of_eq stop.symm
  · have := first.lastStop_le
    have := (s.next c).span.ordered
    omega

theorem start_le (h : Onward s c c') (last : InOrder s c') :
    (s.next c).span.start ≤ (s.next c').span.start := by
  rcases h with ⟨rest, -⟩ | passed
  · exact Nat.le_of_eq (congrArg (·.span.start) (next_of_rest rest).symm)
  · have := last.lastStop_le
    have := (s.next c).span.ordered
    omega

end Onward

/-! ### Every rule goes on -/

/-- However the rule ends, the tokens are in order again, and the place is the same or a later
one. -/
def Proceeds (r : Rule α) : Prop :=
  ∀ s c, InOrder s c → InOrder s (cursorAfter (r s c)) ∧ Onward s c (cursorAfter (r s c))

namespace Proceeds

theorem of_same {r : Rule α} (h : ∀ s c, (cursorAfter (r s c)).rest = c.rest ∧
    (cursorAfter (r s c)).lastStop = c.lastStop) : Proceeds r := by
  intro s c hc
  obtain ⟨rest, stop⟩ := h s c
  exact ⟨hc.of_same rest stop, .inl ⟨rest, stop⟩⟩

theorem advance : Proceeds advance := by
  intro s c hc
  obtain ⟨rest, index, lastStop, pragmas, usage, declared, errors⟩ := c
  cases rest with
  | nil =>
    have stop : (cursorAfter (Grammar.advance s ⟨[], index, lastStop, pragmas, usage, declared,
        errors⟩)).lastStop = s.finish.span.stop := rfl
    have ends := congrArg (·.span.stop) hc.finish
    refine ⟨⟨hc.finish, ?_, by rintro t ⟨⟩, by rintro t ⟨⟩, List.Pairwise.nil⟩, .inr (Nat.le_refl _)⟩
    rw [stop]
    exact Nat.le_of_eq ends
  | cons t rest =>
    obtain ⟨before, row⟩ := List.pairwise_cons.1 hc.row
    have here := hc.goes t List.mem_cons_self
    exact ⟨⟨hc.finish, here.2, fun u hu => hc.goes u (List.mem_cons_of_mem _ hu), before, row⟩,
      .inr (Nat.le_refl _)⟩

/-- Where rules lead, the tokens stay in order. -/
theorem course : Course fun s c c' => InOrder s c → InOrder s c' ∧ Onward s c c' := by
  have still {s : Setting} {c c' : Cursor} (rest : c'.rest = c.rest) (stop : c'.lastStop = c.lastStop)
      (hc : InOrder s c) : InOrder s c' ∧ Onward s c c' :=
    ⟨hc.of_same rest stop, .inl ⟨rest, stop⟩⟩
  exact {
    trans := fun first second hc =>
      ⟨(second (first hc).1).1, (first hc).2.trans (second (first hc).1).2 (first hc).1⟩
    aside := fun _ _ _ _ _ => still rfl rfl
    count := fun _ _ => still rfl rfl
    advance := advance
    take := fun _ _ _ _ => still rfl rfl
    note := fun _ _ _ => still rfl rfl }

theorem bind {r : Rule α} {f : α → Rule β} (hr : Proceeds r) (hf : ∀ a, Proceeds (f a)) :
    Proceeds (r >>= f) :=
  Course.bind course hr hf

theorem ite {p : Prop} [Decidable p] {r r' : Rule α} (hr : Proceeds r) (hr' : Proceeds r') :
    Proceeds (if p then r else r') :=
  Course.ite course hr hr'

theorem recovering {r : Rule α} (stops : Lexeme → Bool) (pastSemicolon : Bool) (hr : Proceeds r) :
    Proceeds (recovering stops pastSemicolon r) :=
  Course.recovering course stops pastSemicolon hr

end Proceeds

/-- Every rule stays where it is or goes on. -/
theorem proceeds : GrammarCongruence fun _ _ (r : Rule _) => Proceeds r :=
  Course.grammar Proceeds.course

end Plc.Grammar

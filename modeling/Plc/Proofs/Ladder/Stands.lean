/-
Readings of rungs that fail.

While a rung is read, the characters that were passed over lead to a place in the grammar.  A rule
either goes on to another place, or meets a character that cannot come there, or the end of the text,
or a bound that is too small for the text.

* `Explains` — what an error says about the text;
* `Stands` — a cursor at a place in the grammar, which has made few passes so far;
* `Meets` — what a rule does from a cursor, whichever way it ends.
-/
import Mathlib.Data.List.TakeWhile
import Plc.Proofs.Ladder.Prefix
import Plc.Proofs.Ladder.Steps

namespace Plc.Ladder

open Text

/-- The error is about the first character that cannot come where it stands, or says what is missing
at the end of the text. -/
inductive Explains (source : List Char) (e : RungError) : Prop where
  | stuck (passed : List Char) (c : Char) (rest : List Char) (σ : State)
      (parts : source = passed ++ c :: rest) (run : State.start.run passed = some σ)
      (stuck : σ.step c = none) (position : e.position = some passed.length)
      (kind : e.kind = .expected ∨
        e.kind = .unexpectedChar ∧ e.char = some (String.singleton c))
  | ended (σ : State) (run : State.start.run source = some σ) (unfinished : σ ≠ .done)
      (kind : e.kind = .expected ∧ e.position = some source.length ∨
        (e.kind = .emptyInput ∨ e.kind = .missingTerminator ∨ e.kind = .unexpectedEnd) ∧
          e.position = none ∨
        ∃ p, e.position = some p ∧ (e.kind = .unclosedParen ∧ source[p]? = some '(' ∨
          e.kind = .unclosedBracket ∧ source[p]? = some '['))

/-- The limits are no hindrance for a text of this length. -/
def Ample (source : List Char) (l : Limits) : Prop :=
  ∀ kind, 2 * utf8Size source + 2 ≤ l.bound kind

theorem length_le_utf8Size (cs : List Char) : cs.length ≤ utf8Size cs := by
  suffices h : ∀ n, n + cs.length ≤ cs.foldl (fun n c => n + c.utf8Size) n by
    simpa [utf8Size] using h 0
  induction cs with
  | nil => exact fun n => Nat.le_refl n
  | cons c cs ih =>
    intro n
    have := ih (n + c.utf8Size)
    have := Char.utf8Size_pos c
    rw [List.foldl_cons, List.length_cons]
    omega

theorem Ample.le {source : List Char} {l : Limits} (h : Ample source l) (kind : LimitKind) :
    2 * source.length + 2 ≤ l.bound kind := by
  have := h kind
  have := length_le_utf8Size source
  omega

/-- The characters passed over lead to a place in the grammar, and there were not many passes and
elements for so many characters. -/
structure Stands (source : List Char) (c : Cursor) (σ : State) (spare : Nat) : Prop where
  passed : ∃ passed, source = passed ++ c.rest ∧ passed.length = c.position ∧
    State.start.run passed = some σ
  passes : c.passes ≤ 2 * c.position + spare
  nodes : c.usage.nodes + c.usage.depth ≤ c.position

namespace Stands

variable {source : List Char} {c : Cursor} {σ τ : State} {spare : Nat} {a : Char} {e : RungError}

theorem position_le (h : Stands source c σ spare) : c.position + c.rest.length = source.length := by
  obtain ⟨passed, rfl, length, -⟩ := h.passed
  rw [List.length_append, length]

theorem mono {spare' : Nat} (h : Stands source c σ spare) (le : spare ≤ spare') :
    Stands source c σ spare' :=
  { h with passes := Nat.le_trans h.passes (by omega) }

/-- A part of what comes next is passed over. -/
theorem past {cs rest : List Char} (h : Stands source c σ spare) (parts : c.rest = cs ++ rest)
    (run : σ.run cs = some τ) : Stands source (c.past cs.length) τ (spare - 2 * cs.length) := by
  obtain ⟨passed, whole, length, before⟩ := h.passed
  refine ⟨⟨passed ++ cs, ?_, ?_, ?_⟩, ?_, ?_⟩
  · rw [Cursor.past_rest, parts, List.drop_left, List.append_assoc, ← parts]
    exact whole
  · rw [List.length_append, length]
    rfl
  · rw [State.run_append, before]
    exact run
  · have := h.passes
    show c.passes ≤ 2 * (c.position + cs.length) + _
    omega
  · have := h.nodes
    show c.usage.nodes + c.usage.depth ≤ c.position + cs.length
    omega

/-- The next character is passed over. -/
theorem past_one (h : Stands source c σ spare) (head : c.rest.head? = some a)
    (step : σ.step a = some τ) : Stands source (c.past 1) τ (spare - 2) := by
  cases rest : c.rest with
  | nil => simp [rest] at head
  | cons b cs =>
    rw [rest] at head
    cases head
    have run : σ.run [a] = some τ := by
      rw [State.run_cons, step]
      rfl
    exact h.past rest run

/-- Blanks are passed over where they change nothing. -/
theorem pastBlanks (h : Stands source c σ spare)
    (stays : ∀ b, isBlank b = true → σ.step b = some σ) : Stands source c.pastBlanks σ spare := by
  have parts := (List.takeWhile_append_dropWhile (p := isBlank) (l := c.rest)).symm
  have run : σ.run (c.rest.takeWhile isBlank) = some σ :=
    State.run_stay fun b hb => stays b (List.mem_takeWhile_imp hb)
  exact (h.past parts run).mono (Nat.sub_le _ _)

/-- A name between elements is passed over. -/
theorem pastName {groups : List Bool} (h : Stands source c (.series groups) spare)
    (head : c.rest.head? = some a) (letter : isNameStart a = true) :
    Stands source c.pastName (.name groups) (spare - 2) ∧ c.position < c.pastName.position := by
  have parts := (List.takeWhile_append_dropWhile (p := isNameChar) (l := c.rest)).symm
  have name : c.rest.takeWhile isNameChar = a :: (c.past 1).rest.takeWhile isNameChar := by
    rw [← List.takeWhile_cons_of_pos (isNameChar_of_isNameStart letter), ← Cursor.rest_eq_cons head]
  have length : 1 ≤ (c.rest.takeWhile isNameChar).length := by
    rw [name, List.length_cons]
    omega
  obtain ⟨blank, bracket, -⟩ := plain_of_isNameStart letter
  have first := State.step_series_name groups blank bracket letter
  have run : (State.series groups).run (c.rest.takeWhile isNameChar) = some (.name groups) := by
    rw [name, State.run_cons, first]
    exact State.run_stay fun b hb => if_pos (List.mem_takeWhile_imp hb)
  refine ⟨(h.past parts run).mono (by omega), ?_⟩
  show c.position < c.position + _
  omega

theorem counted (h : Stands source c σ spare) : Stands source c.counted σ (spare + 1) :=
  ⟨h.passed, Nat.add_le_add_right h.passes 1, h.nodes⟩

/-- The next character stands in the text. -/
theorem getElem? (h : Stands source c σ spare) (head : c.rest.head? = some a) :
    source[c.position]? = some a := by
  obtain ⟨passed, rfl, length, -⟩ := h.passed
  rw [← length, List.getElem?_append_right (Nat.le_refl _), Nat.sub_self, ← List.head?_eq_getElem?]
  exact head

/-- The next character cannot come. -/
theorem stuck (h : Stands source c σ spare) (head : c.rest.head? = some a) (stuck : σ.step a = none)
    (position : e.position = some c.position)
    (kind : e.kind = .expected ∨ e.kind = .unexpectedChar ∧ e.char = some (String.singleton a)) :
    Explains source e := by
  obtain ⟨passed, whole, length, run⟩ := h.passed
  cases rest : c.rest with
  | nil => simp [rest] at head
  | cons b cs =>
    rw [rest] at head whole
    cases head
    exact .stuck passed a cs σ whole run stuck (by rw [position, length]) kind

/-- At the end of the text all of it leads to the place. -/
theorem run (h : Stands source c σ spare) (none_ : c.rest.head? = none) :
    State.start.run source = some σ := by
  obtain ⟨passed, rfl, -, run⟩ := h.passed
  rw [List.head?_eq_none_iff.1 none_, List.append_nil]
  exact run

end Stands

/-! ### Ways to end -/

namespace RungRule

variable {α β : Type} {source : List Char} {l : Limits} {c c₁ : Cursor} {r : RungRule α}
variable {f : α → RungRule β} {g : Unit → RungRule β} {P : α → Cursor → Prop} {Q : β → Cursor → Prop}
variable {σ : State} {spare : Nat}

/-- A rule that gives a result leads to where the condition says; an error explains the text; and a
bound is only passed when the limits are a hindrance. -/
def Meets (source : List Char) (l : Limits) (r : RungRule α) (c : Cursor)
    (P : α → Cursor → Prop) : Prop :=
  match r l c with
  | .ok a c' => P a c'
  | .error (.malformed e) _ => Explains source e
  | .error (.limit _) _ => ¬Ample source l

namespace Meets

theorem bind (h : Meets source l r c P) (hf : ∀ a c', P a c' → Meets source l (f a) c' Q) :
    Meets source l (r >>= f) c Q := by
  unfold Meets at h ⊢
  rw [bind_apply]
  cases run : r l c with
  | ok a c' =>
    rw [run] at h
    exact hf a c' h
  | error e c' =>
    rw [run] at h
    cases e <;> exact h

/-- A rule whose first part is known to give a result. -/
theorem next {a : α} (h : r l c = .ok a c₁) (hf : Meets source l (f a) c₁ Q) :
    Meets source l (r >>= f) c Q := by
  unfold Meets
  rw [bind_of_ok h]
  exact hf

theorem pure {a : α} (h : P a c) : Meets source l (pure a) c P := h

theorem fail {kind : RungError.Kind} {position : Option Nat} {char expected : Option String}
    (h : Explains source ⟨kind, position, char, expected⟩) :
    Meets source l (fail kind position char expected : RungRule α) c P := h

/-- Something else has to stand where the cursor is. -/
theorem failExpected (h : Stands source c σ spare) (what : String) (unfinished : σ ≠ .done)
    (stuck : ∀ a ∈ c.rest.head?, σ.step a = none) :
    Meets source l (failExpected what c.position : RungRule α) c P := by
  cases head : c.rest.head? with
  | none =>
    have place := h.position_le
    rw [List.head?_eq_none_iff.1 head, List.length_nil, Nat.add_zero] at place
    exact fail (.ended σ (h.run head) unfinished (.inl ⟨rfl, congrArg some place⟩))
  | some a => exact fail (h.stuck head (stuck a head) rfl (.inl rfl))

/-- The next character cannot come. -/
theorem failUnexpected {a : Char} (h : Stands source c σ spare) (head : c.rest.head? = some a)
    (stuck : σ.step a = none) : Meets source l (failUnexpected : RungRule α) c P := by
  refine next (peek_apply l c) ?_
  rw [head]
  exact next (here_apply l c) (fail (h.stuck head stuck rfl (.inr ⟨rfl, rfl⟩)))

/-- A bound that is large enough for the text is kept. -/
theorem checkLimit {kind : LimitKind} {value : Nat} {span : Span}
    (small : value ≤ 2 * source.length + 2) (hg : Meets source l (g ()) c Q) :
    Meets source l (checkLimit kind value span >>= g) c Q := by
  by_cases within : value ≤ l.bound kind
  · exact next (checkLimit_eq_ok_iff.2 ⟨within, rfl⟩) hg
  · have passed : RungRule.checkLimit kind value span l c =
        .error (.limit ⟨kind, l.bound kind, value, span⟩) c := by
      have checked : l.check kind value span = .error ⟨kind, l.bound kind, value, span⟩ := by
        rw [Limits.check, if_neg within]
      unfold RungRule.checkLimit
      rw [bind_of_ok (limits_apply l c), checked]
      rfl
    unfold Meets
    rw [bind_apply, passed]
    intro ample
    exact within (Nat.le_trans small (ample.le kind))

theorem checkSize {size : Nat} (h : Stands source c σ spare) (small : size ≤ c.position)
    (hg : Meets source l (g ()) c Q) : Meets source l (checkSize size >>= g) c Q := by
  unfold RungRule.checkSize
  rw [bind_assoc]
  refine next (here_apply l c) (checkLimit ?_ hg)
  have := h.position_le
  omega

theorem countPass (h : Stands source c σ spare) (few : spare ≤ 1)
    (hg : Stands source c.counted σ (spare + 1) → Meets source l (g ()) c.counted Q) :
    Meets source l (countPass >>= g) c Q := by
  unfold RungRule.countPass
  rw [bind_assoc]
  refine next (modify_apply _ l c) ?_
  rw [bind_assoc]
  refine next (get_apply l _) ?_
  rw [bind_assoc]
  refine next (here_apply l _) (checkLimit ?_ (hg h.counted))
  have := h.position_le
  have := h.passes
  show c.passes + 1 ≤ _
  omega

/-- An element is counted. -/
theorem element {start : Nat} {f : Span → RungRule β}
    (passed : Stands source { c with usage := c.usage.addNode } σ spare)
    (hf : ∀ span, Meets source l (f span) { c with usage := c.usage.addNode } Q) :
    Meets source l (element start >>= f) c Q := by
  unfold RungRule.element
  rw [bind_assoc]
  refine next (spanFrom_apply start l c) ?_
  rw [bind_assoc]
  refine next (modify_apply _ l c) ?_
  rw [bind_assoc]
  refine next (get_apply l _) ?_
  rw [bind_assoc]
  refine checkLimit ?_ (hf _)
  have := passed.position_le
  have := passed.nodes
  omega

/-- There are as many passes left as characters. -/
theorem tooManyPasses (h : Stands source c σ spare) (all : l.maxIterations ≤ c.position) :
    Meets source l (tooManyPasses : RungRule α) c P := by
  show ¬Ample source l
  intro ample
  have := ample.le .iterations
  have := h.position_le
  have bound : l.bound .iterations = l.maxIterations := rfl
  omega

/-- There are as many groups to be opened as characters. -/
theorem tooDeep {e : Element → Cursor → Prop} (h : Stands source c σ spare)
    (all : l.maxDepth ≤ c.usage.depth) : Meets source l tooDeep c e := by
  show ¬Ample source l
  intro ample
  have := ample.le .depth
  have := h.position_le
  have := h.nodes
  have bound : l.bound .depth = l.maxDepth := rfl
  omega

end Meets

end RungRule

end Plc.Ladder

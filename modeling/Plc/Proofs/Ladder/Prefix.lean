/-
The beginnings of rungs.

Whether a text can still become a rung is seen one character at a time: what matters of the
characters so far is which groups are open, and what is open in the operand that they end in.

* `State`, `State.step` — where the characters so far lead to in the grammar;
* `State.completes` — from everywhere there is a way to the end of a rung.
-/
import Plc.Proofs.Ladder.Inside

namespace Plc.Ladder

open Text

/-- A place in the grammar.  The groups that are open are given innermost first, each by whether its
current branch has an element. -/
inductive State where
  /-- Between elements. -/
  | series (groups : List Bool)
  /-- In the name of an instruction. -/
  | name (groups : List Bool)
  /-- After the opening parenthesis of an instruction. -/
  | arguments (groups : List Bool)
  /-- Before an operand. -/
  | operand (groups : List Bool)
  /-- After an operand that is to be found out. -/
  | inferred (groups : List Bool)
  /-- In an operand. -/
  | inside (groups : List Bool) (text : Inside)
  /-- After the semicolon. -/
  | done

namespace State

/-- The groups when the current branch of the innermost one has an element. -/
def fill : List Bool → List Bool
  | [] => []
  | _ :: outer => true :: outer

/-- One more character between elements. -/
def betweenElements (groups : List Bool) (c : Char) : Option State :=
  if isBlank c then some (series groups)
  else if c = '[' then some (series (false :: groups))
  else if isNameStart c then some (name groups)
  else
    match groups with
    | [] => if c = ';' then some done else none
    | true :: outer =>
      if c = ',' then some (series (false :: outer))
      else if c = ']' then some (series (fill outer))
      else none
    | false :: _ => none

/-- One more character before an operand. -/
def beforeOperand (groups : List Bool) (c : Char) : Option State :=
  if isBlank c then some (operand groups)
  else if c = '?' then some (inferred groups)
  else (Inside.closed.step c).map (inside groups)

/-- The character after an operand. -/
def afterOperand (groups : List Bool) (c : Char) : Option State :=
  if c = ',' then some (operand groups)
  else if c = ')' then some (series (fill groups))
  else none

/-- One more character, unless no rung could go on with it. -/
def step : State → Char → Option State
  | series groups, c => betweenElements groups c
  | name groups, c =>
    if isNameChar c then some (name groups)
    else if c = '(' then some (arguments groups)
    else none
  | arguments groups, c =>
    if c = ')' then some (series (fill groups))
    else if isBlank c then some (arguments groups)
    else beforeOperand groups c
  | operand groups, c => beforeOperand groups c
  | inferred groups, c => if isBlank c then some (inferred groups) else afterOperand groups c
  | inside groups i, c =>
    match i.step c with
    | some j => some (inside groups j)
    | none => if i.brackets = [] then afterOperand groups c else none
  | done, c => if isBlank c then some done else none

theorem step_series_blank (groups : List Bool) {c : Char} (blank : isBlank c = true) :
    (series groups).step c = some (series groups) := by
  show betweenElements groups c = _
  unfold betweenElements
  rw [if_pos blank]

theorem step_series_bracket (groups : List Bool) :
    (series groups).step '[' = some (series (false :: groups)) := by
  show betweenElements groups '[' = _
  unfold betweenElements
  rfl

theorem step_series_name (groups : List Bool) {c : Char} (blank : isBlank c = false)
    (bracket : c ≠ '[') (letter : isNameStart c = true) :
    (series groups).step c = some (name groups) := by
  show betweenElements groups c = _
  unfold betweenElements
  rw [if_neg (Bool.eq_false_iff.1 blank), if_neg bracket, if_pos letter]

/-- Between elements only a few characters can come that neither are blank nor begin one. -/
theorem step_series_none (groups : List Bool) {c : Char} (blank : isBlank c = false)
    (bracket : c ≠ '[') (letter : isNameStart c = false) (semicolon : groups = [] → c ≠ ';')
    (ends : ∀ outer, groups = true :: outer → c ≠ ',' ∧ c ≠ ']') :
    (series groups).step c = none := by
  show betweenElements groups c = _
  unfold betweenElements
  rw [if_neg (Bool.eq_false_iff.1 blank), if_neg bracket, if_neg (Bool.eq_false_iff.1 letter)]
  rcases groups with _ | ⟨_ | _, outer⟩
  · exact if_neg (semicolon rfl)
  · rfl
  · obtain ⟨comma, close⟩ := ends outer rfl
    show (if c = ',' then _ else _) = none
    rw [if_neg comma, if_neg close]

/-- Some more characters. -/
def run (σ : State) (cs : List Char) : Option State :=
  cs.foldlM step σ

/-- Before the first character. -/
def start : State := series []

@[simp] theorem run_nil (σ : State) : σ.run [] = some σ := rfl

@[simp] theorem run_cons (σ : State) (c : Char) (cs : List Char) :
    σ.run (c :: cs) = (σ.step c).bind fun τ => τ.run cs := rfl

theorem run_append (σ : State) (cs ds : List Char) :
    σ.run (cs ++ ds) = (σ.run cs).bind fun τ => τ.run ds := by
  unfold run
  rw [List.foldlM_append]
  rfl

/-- Characters that change nothing. -/
theorem run_stay {σ : State} {cs : List Char} (h : ∀ c ∈ cs, σ.step c = some σ) :
    σ.run cs = some σ := by
  induction cs with
  | nil => rfl
  | cons c cs ih =>
    rw [run_cons, h c List.mem_cons_self]
    exact ih fun d hd => h d (List.mem_cons_of_mem _ hd)

/-- Inside an operand the characters do what they do to what is open in it. -/
theorem run_inside (groups : List Bool) {i j : Inside} {cs : List Char} (h : i.steps cs = some j) :
    (inside groups i).run cs = some (inside groups j) := by
  induction cs generalizing i with
  | nil =>
    cases h
    rfl
  | cons c cs ih =>
    obtain ⟨k, first, rest⟩ := Option.bind_eq_some_iff.1 h
    have here : (inside groups i).step c = some (inside groups k) := by
      rw [step, first]
    rw [run_cons, here]
    exact ih rest

/-! ### The way to the end of a rung -/

/-- The closing brackets of the open groups, and the semicolon. -/
def closing (groups : List Bool) : List Char :=
  List.replicate groups.length ']' ++ [';']

/-- After an element everything can be closed. -/
theorem run_closing (groups : List Bool) : (series (fill groups)).run (closing groups) = some done := by
  induction groups with
  | nil => rfl
  | cons full outer ih =>
    have here : (series (fill (full :: outer))).step ']' = some (series (fill outer)) := rfl
    show (series (fill (full :: outer))).run (']' :: closing outer) = some done
    rw [run_cons, here]
    exact ih

end State

/-- Whatever is open in an operand can be closed. -/
theorem Inside.completes (i : Inside) : ∃ cs, i.steps cs = some Inside.closed := by
  obtain ⟨quote, brackets⟩ := i
  -- Outside of strings the brackets are closed one after another; a string is closed before.
  have unquoted : ∃ cs, (Inside.mk none brackets).steps cs = some Inside.closed := by
    induction brackets with
    | nil => exact ⟨[], rfl⟩
    | cons b outer ih =>
      obtain ⟨cs, closes⟩ := ih
      by_cases paren : b = '('
      · refine ⟨')' :: cs, ?_⟩
        have here : (Inside.mk none (b :: outer)).step ')' = some ⟨none, outer⟩ := by
          simp [Inside.step, Operand.opens, Operand.closes, paren]
        rw [Inside.steps_cons, here]
        exact closes
      · refine ⟨']' :: cs, ?_⟩
        have here : (Inside.mk none (b :: outer)).step ']' = some ⟨none, outer⟩ := by
          simp [Inside.step, Operand.opens, Operand.closes, paren]
        rw [Inside.steps_cons, here]
        exact closes
  cases quote with
  | none => exact unquoted
  | some q =>
    obtain ⟨cs, closes⟩ := unquoted
    refine ⟨q :: cs, ?_⟩
    have here : (Inside.mk (some q) brackets).step q = some ⟨none, brackets⟩ := by
      simp [Inside.step]
    rw [Inside.steps_cons, here]
    exact closes

namespace State

/-- From everywhere there is a way to the end of a rung. -/
theorem completes (σ : State) : ∃ cs, σ.run cs = some done := by
  -- it is enough to reach the end of an element
  have after (groups : List Bool) (τ : State) (cs : List Char)
      (h : τ.run cs = some (series (fill groups))) : ∃ cs, τ.run cs = some done := by
    refine ⟨cs ++ closing groups, ?_⟩
    rw [run_append, h]
    exact run_closing groups
  cases σ with
  | series groups => exact after groups _ ['A', '(', ')'] rfl
  | name groups => exact after groups _ ['(', ')'] rfl
  | arguments groups => exact after groups _ [')'] rfl
  | operand groups => exact after groups _ ['?', ')'] rfl
  | inferred groups => exact after groups _ [')'] rfl
  | inside groups i =>
    obtain ⟨cs, closes⟩ := i.completes
    refine after groups _ (cs ++ [')']) ?_
    rw [run_append, run_inside groups closes]
    rfl
  | done => exact ⟨[], rfl⟩

end State

end Plc.Ladder

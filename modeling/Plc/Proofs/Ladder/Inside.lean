/-
The inside of an operand.

An operand goes on while a quote or a bracket is open in it, and otherwise up to the first comma or
closing bracket.  What is open is read off the characters so far, one after another.

* `Inside`, `Inside.step` — what is open, and what one more character changes;
* `operandLength_ok`, `operandLength_of_steps` — where an operand ends, in terms of what is open;
* `operandLength_error` — the first character that no operand could have there, and what is still
  open at the end of a text.
-/
import Plc.Ladder.Reading

namespace Plc.Ladder

open Text

/-- What is open inside an operand: a quote, and brackets, innermost first. -/
structure Inside where
  quote : Option Char := none
  brackets : List Char := []

namespace Inside

/-- One more character of an operand, unless the operand ends before it or it closes a bracket of
the other kind. -/
def step (i : Inside) (c : Char) : Option Inside :=
  match i.quote with
  | some q => some { i with quote := if c == q then none else some q }
  | none =>
    if c == '\'' || c == '"' then some { i with quote := some c }
    else if Operand.opens c then some { i with brackets := c :: i.brackets }
    else
      match i.brackets with
      | [] => if c == ',' || Operand.closes c then none else some i
      | b :: outer =>
        if Operand.closes c then
          if (b == '(') == (c == ')') then some { i with brackets := outer } else none
        else some i

/-- Some more characters. -/
def steps (i : Inside) (cs : List Char) : Option Inside :=
  cs.foldlM step i

/-- Nothing is open. -/
def closed : Inside := {}

@[simp] theorem steps_cons (i : Inside) (c : Char) (cs : List Char) :
    i.steps (c :: cs) = (i.step c).bind fun j => j.steps cs := rfl

theorem steps_append (i : Inside) (cs ds : List Char) :
    i.steps (cs ++ ds) = (i.steps cs).bind fun j => j.steps ds := by
  unfold steps
  rw [List.foldlM_append]
  rfl

/-- A comma or a closing bracket. -/
def ends (c : Char) : Bool := c == ',' || Operand.closes c

/-- Where nothing is open, an operand ends before a comma and before a closing bracket. -/
theorem step_closed {c : Char} (h : ends c = true) : closed.step c = none := by
  have other : (c == '\'' || c == '"') = false ∧ Operand.opens c = false := by
    simp only [ends, Operand.closes, Bool.or_eq_true, beq_iff_eq] at h
    rcases h with rfl | rfl | rfl <;> decide
  unfold ends at h
  simp [step, closed, other.1, other.2, h]

/-- No blank is a quote. -/
def Proper (i : Inside) : Prop := ∀ q ∈ i.quote, isBlank q = false

theorem proper_closed : closed.Proper := nofun

theorem Proper.step {i j : Inside} {c : Char} (h : i.Proper) (hs : i.step c = some j) :
    j.Proper := by
  unfold Inside.step at hs
  split at hs
  · next q open_ =>
    cases hs
    intro q' hq'
    split at hq'
    · cases hq'
    · exact h q' (open_.trans hq')
  · next none_ =>
    split at hs
    · next mark =>
      cases hs
      rintro q ⟨⟩
      rw [Bool.or_eq_true, beq_iff_eq, beq_iff_eq] at mark
      rcases mark with rfl | rfl
      · rfl
      · rfl
    · -- the quote stays closed in all that is left
      have same : j.quote = i.quote := by
        repeat' split at hs
        all_goals first | (cases hs; rfl) | cases hs
      intro q hq
      exact h q (same ▸ hq)

theorem Proper.steps {cs : List Char} {i j : Inside} (h : i.Proper) (hs : i.steps cs = some j) :
    j.Proper := by
  induction cs generalizing i with
  | nil =>
    cases hs
    exact h
  | cons c cs ih =>
    obtain ⟨k, first, rest⟩ := Option.bind_eq_some_iff.1 hs
    exact ih (h.step first) rest

/-- A blank opens and closes nothing. -/
theorem Proper.step_blank {i : Inside} (h : i.Proper) {c : Char} (blank : isBlank c = true) :
    i.step c = some i := by
  have ne (d : Char) (hd : isBlank d = false) : c ≠ d := by
    rintro rfl
    rw [hd] at blank
    cases blank
  have plain : c ≠ '\'' ∧ c ≠ '"' ∧ c ≠ '(' ∧ c ≠ '[' ∧ c ≠ ',' ∧ c ≠ ')' ∧ c ≠ ']' :=
    ⟨ne _ rfl, ne _ rfl, ne _ rfl, ne _ rfl, ne _ rfl, ne _ rfl, ne _ rfl⟩
  obtain ⟨quote, brackets⟩ := i
  cases quote with
  | some q =>
    have other : c ≠ q := ne q (h q rfl)
    simp [Inside.step, other]
  | none => cases brackets <;> simp [Inside.step, Operand.opens, Operand.closes, plain]

theorem Proper.steps_blank {i : Inside} (h : i.Proper) {cs : List Char}
    (blank : ∀ c ∈ cs, isBlank c = true) : i.steps cs = some i := by
  induction cs with
  | nil => rfl
  | cons c cs ih =>
    rw [Inside.steps_cons, h.step_blank (blank c List.mem_cons_self)]
    exact ih fun d hd => blank d (List.mem_cons_of_mem _ hd)

end Inside

/-! ### Where an operand ends -/

namespace RungRule

open Inside

variable {q : Option Char} {bs : List (Char × Nat)} {p n : Nat} {text rest cs : List Char}

/-- What is open, when the open brackets are given with their places. -/
def insideOf (q : Option Char) (bs : List (Char × Nat)) : Inside := ⟨q, bs.map Prod.fst⟩

/-- At one more character the operand goes on, ends, or has a bracket of the wrong kind. -/
theorem operandLength_cons (q : Option Char) (bs : List (Char × Nat)) (p : Nat) (c : Char)
    (cs : List Char) :
    (∃ q' bs', (insideOf q bs).step c = some (insideOf q' bs') ∧
      (∀ b ∈ bs', b ∈ bs ∨ b = (c, p) ∧ Operand.opens c = true) ∧
      operandLength q bs p (c :: cs) = (operandLength q' bs' (p + 1) cs).map (· + 1)) ∨
    (insideOf q bs = closed ∧ ends c = true ∧ operandLength q bs p (c :: cs) = .ok 0) ∨
    ((insideOf q bs).step c = none ∧ bs ≠ [] ∧ operandLength q bs p (c :: cs) = .error
      { kind := .unexpectedChar, position := some p, char := some (String.singleton c) }) := by
  -- In a string only its quote matters. Outside, the cases are in the order of the tests: a quote,
  -- an opening bracket, and then by whether a bracket is open.
  cases q with
  | some q =>
    refine .inl ⟨if c == q then none else some q, bs, rfl, fun b hb => .inl hb, ?_⟩
    rw [operandLength]
  | none =>
    by_cases mark : (c == '\'' || c == '"') = true
    · refine .inl ⟨some c, bs, by simp [step, insideOf, mark], fun b hb => .inl hb, ?_⟩
      cases bs <;> simp only [operandLength, mark, if_true]
    by_cases opens : Operand.opens c = true
    · refine .inl ⟨none, (c, p) :: bs, by simp [step, insideOf, mark, opens], fun b hb => ?_, ?_⟩
      · exact (List.mem_cons.1 hb).symm.imp_right fun same => ⟨same, opens⟩
      · cases bs <;> simp only [operandLength, mark, opens, if_true, Bool.false_eq_true, if_false]
    cases bs with
    | nil =>
      by_cases last : (c == ',' || Operand.closes c) = true
      · refine .inr (.inl ⟨rfl, last, ?_⟩)
        simp only [operandLength, mark, opens, last, if_true, Bool.false_eq_true, if_false]
      · refine .inl ⟨none, [], by simp [step, insideOf, mark, opens, last], nofun, ?_⟩
        simp only [operandLength, mark, opens, last, Bool.false_eq_true, if_false]
    | cons b outer =>
      obtain ⟨b, place⟩ := b
      by_cases closes : Operand.closes c = true
      · by_cases fits : ((b == '(') == (c == ')')) = true
        · refine .inl ⟨none, outer, ?_, fun b hb => .inl (List.mem_cons_of_mem _ hb), ?_⟩
          · simp [step, insideOf, mark, opens, closes, fits]
          · simp only [operandLength, mark, opens, closes, fits, if_true, Bool.false_eq_true, if_false]
        · refine .inr (.inr ⟨?_, List.cons_ne_nil _ _, ?_⟩)
          · simp [step, insideOf, mark, opens, closes, fits]
          · simp only [operandLength, mark, opens, closes, fits, if_true, Bool.false_eq_true, if_false]
      · refine .inl ⟨none, (b, place) :: outer, ?_, fun b hb => .inl hb, ?_⟩
        · simp [step, insideOf, mark, opens, closes]
        · simp only [operandLength, mark, opens, closes, Bool.false_eq_true, if_false]

/-- An operand ends where nothing is open, before a comma or a closing bracket, or with the text
when no bracket is open. -/
theorem operandLength_ok (h : operandLength q bs p cs = .ok n) :
    ∃ text rest i, cs = text ++ rest ∧ text.length = n ∧ (insideOf q bs).steps text = some i ∧
      (rest = [] ∧ i.brackets = [] ∨ i = closed ∧ ∃ c more, rest = c :: more ∧ ends c = true) := by
  -- Induction on the text, by what happens at one more character.
  induction cs generalizing q bs p n with
  | nil =>
    cases bs with
    | nil =>
      cases h
      exact ⟨[], [], _, rfl, rfl, rfl, .inl ⟨rfl, rfl⟩⟩
    | cons b bs => cases h
  | cons c cs ih =>
    rcases operandLength_cons q bs p c cs with ⟨q', bs', on, -, run⟩ | ⟨free, last, run⟩ | ⟨-, -, run⟩
    · rw [run] at h
      cases more : operandLength q' bs' (p + 1) cs with
      | error e =>
        rw [more] at h
        cases h
      | ok k =>
        rw [more] at h
        cases h
        obtain ⟨text, rest, i, rfl, rfl, steps, stop⟩ := ih more
        exact ⟨c :: text, rest, i, rfl, rfl, by rw [steps_cons, on, Option.bind_some, steps], stop⟩
    · rw [run] at h
      cases h
      exact ⟨[], c :: cs, _, rfl, rfl, rfl, .inr ⟨free, c, cs, rfl, last⟩⟩
    · rw [run] at h
      cases h

/-- A text in which nothing is left open is an operand before a comma or a closing bracket. -/
theorem operandLength_of_steps {c : Char} (h : (insideOf q bs).steps text = some closed)
    (last : ends c = true) : operandLength q bs p (text ++ c :: rest) = .ok text.length := by
  -- Induction on the text of the operand; inside it nothing ends it, as the steps go on.
  induction text generalizing q bs p with
  | nil =>
    have free : insideOf q bs = closed := Option.some.inj h
    rcases operandLength_cons q bs p c rest with ⟨q', bs', on, -, -⟩ | ⟨-, -, run⟩ | ⟨-, some, -⟩
    · rw [free, step_closed last] at on
      cases on
    · exact run
    · cases bs with
      | nil => cases some rfl
      | cons b bs => cases congrArg Inside.brackets free
  | cons d text ih =>
    obtain ⟨j, first, more⟩ := Option.bind_eq_some_iff.1 h
    rcases operandLength_cons q bs p d (text ++ c :: rest) with
      ⟨q', bs', on, -, run⟩ | ⟨free, last', -⟩ | ⟨stuck, -, -⟩
    · obtain rfl : insideOf q' bs' = j := Option.some.inj (on.symm.trans first)
      rw [List.cons_append, run, ih more]
      rfl
    · rw [free, step_closed last'] at first
      cases first
    · rw [stuck] at first
      cases first

/-- An operand that is wrong has a character that no operand could have there, or it leaves a
bracket open at the end of the text. -/
theorem operandLength_error {e : RungError} (h : operandLength q bs p cs = .error e) :
    (∃ text c rest i, cs = text ++ c :: rest ∧ (insideOf q bs).steps text = some i ∧
      i.step c = none ∧ i.brackets ≠ [] ∧ e =
        { kind := .unexpectedChar, position := some (p + text.length),
          char := some (String.singleton c) }) ∨
    ∃ i b place, (insideOf q bs).steps cs = some i ∧
      ((b, place) ∈ bs ∨ ∃ k, place = p + k ∧ cs[k]? = some b ∧ Operand.opens b = true) ∧
      e = { kind := if b == '(' then .unclosedParen else .unclosedBracket, position := some place } := by
  -- Induction on the text. A place that is named is that of a bracket from before, or of one that
  -- was opened since.
  induction cs generalizing q bs p with
  | nil =>
    cases bs with
    | nil => cases h
    | cons b bs =>
      obtain ⟨b, place⟩ := b
      cases h
      exact .inr ⟨_, b, place, rfl, .inl List.mem_cons_self, rfl⟩
  | cons c cs ih =>
    rcases operandLength_cons q bs p c cs with
      ⟨q', bs', on, known, run⟩ | ⟨-, -, run⟩ | ⟨stuck, some, run⟩
    · have more : operandLength q' bs' (p + 1) cs = .error e := by
        rw [run] at h
        cases inner : operandLength q' bs' (p + 1) cs with
        | error e' =>
          rw [inner] at h
          cases h
          rfl
        | ok k =>
          rw [inner] at h
          cases h
      rcases ih more with ⟨text, d, rest, i, rfl, steps, stuck, open_, rfl⟩ |
        ⟨i, b, place, steps, place_, rfl⟩
      · refine .inl ⟨c :: text, d, rest, i, rfl, ?_, stuck, open_, ?_⟩
        · rw [steps_cons, on, Option.bind_some, steps]
        · rw [List.length_cons, Nat.add_right_comm, Nat.add_assoc p]
      · refine .inr ⟨i, b, place, ?_, ?_, rfl⟩
        · rw [steps_cons, on, Option.bind_some, steps]
        · rcases place_ with before | ⟨k, rfl, at_, opens⟩
          · rcases known _ before with old | ⟨same, opens⟩
            · exact .inl old
            · cases same
              exact .inr ⟨0, rfl, rfl, opens⟩
          · exact .inr ⟨k + 1, by omega, at_, opens⟩
    · rw [run] at h
      cases h
    · rw [run] at h
      cases h
      refine .inl ⟨[], c, cs, _, rfl, rfl, stuck, ?_, rfl⟩
      cases bs with
      | nil => exact absurd rfl some
      | cons b bs => exact List.cons_ne_nil _ _

end RungRule

end Plc.Ladder

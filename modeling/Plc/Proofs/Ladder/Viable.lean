/-
Errors at the first hopeless character.

A text is the beginning of a rung as long as its characters lead somewhere in the grammar.  So an
error stands at the first character with which the text stops to be one, or it says what is missing
of a text that is one.

* `accepted_iff`, `isRungPrefix_iff` — rungs and their beginnings, one character at a time;
* `readRung_malformed` — what an error says.
-/
import Plc.Proofs.Ladder.Outcome

namespace Plc.Ladder

open Text

variable {source : List Char} {l : Limits}

/-- The text is the beginning of some rung. -/
def IsRungPrefix (text : List Char) : Prop :=
  ∃ more l r, readRung (text ++ more) l = .ok r

/-- How the reading of a text ends. -/
theorem readRung_meets (source : List Char) (l : Limits) :
    match readRung source l with
    | .ok _ => State.start.run source = some .done
    | .error (.malformed e) => Explains source e
    | .error (.limit _) => ¬Ample source l := by
  unfold readRung
  -- A text above the size is refused before it is read.
  by_cases small : utf8Size source ≤ l.maxInputSize
  · rw [show l.check .inputSize (utf8Size source) = .ok () from Limits.check_eq_ok_iff.2 small]
    have meets : RungRule.Meets source l RungRule.rung _ _ := RungRule.rung_meets
    unfold RungRule.Meets at meets
    dsimp only
    cases run : RungRule.rung l { rest := source } with
    | ok r c =>
      rw [run] at meets
      exact meets
    | error e c =>
      rw [run] at meets
      cases e <;> exact meets
  · have checked : l.check .inputSize (utf8Size source) =
        .error ⟨.inputSize, l.maxInputSize, utf8Size source, Span.zero⟩ := if_neg small
    rw [checked]
    intro ample
    have := ample .inputSize
    change _ ≤ l.maxInputSize at this
    omega

/-- For every text there are limits that are no hindrance. -/
theorem exists_ample (source : List Char) : ∃ l, Ample source l := by
  refine ⟨⟨2 * utf8Size source + 2, 2 * utf8Size source + 2, 2 * utf8Size source + 2,
    2 * utf8Size source + 2, 2 * utf8Size source + 2, 2 * utf8Size source + 2⟩, fun kind => ?_⟩
  cases kind <;> exact Nat.le_refl _

/-- An error about a text means that the text leads to no rung. -/
theorem Explains.run_ne_done {e : RungError} (h : Explains source e) :
    State.start.run source ≠ some .done := by
  cases h with
  | stuck passed c rest σ parts run stuck =>
    rw [parts, State.run_append, run, Option.bind_some, State.run_cons, stuck]
    exact nofun
  | ended σ run unfinished =>
    rw [run]
    exact fun same => unfinished (Option.some.inj same)

/-- A text that leads to the end of a rung is read under all limits that are no hindrance. -/
theorem exists_readRung_of_run (h : State.start.run source = some .done) (ample : Ample source l) :
    ∃ r, readRung source l = .ok r := by
  have meets := readRung_meets source l
  cases read : readRung source l with
  | ok r => exact ⟨r, rfl⟩
  | error e =>
    rw [read] at meets
    cases e with
    | malformed e => exact absurd h (Explains.run_ne_done meets)
    | limit e => exact absurd ample meets

/-- The texts that are accepted are those that lead to the end of a rung. -/
theorem accepted_iff : (∃ l r, readRung source l = .ok r) ↔ State.start.run source = some .done := by
  constructor
  · rintro ⟨l, r, read⟩
    have meets := readRung_meets source l
    rw [read] at meets
    exact meets
  · intro h
    obtain ⟨l, ample⟩ := exists_ample source
    exact ⟨l, exists_readRung_of_run h ample⟩

/-- The beginnings of rungs are the texts that lead anywhere. -/
theorem isRungPrefix_iff : IsRungPrefix source ↔ ∃ σ, State.start.run source = some σ := by
  constructor
  · rintro ⟨more, l, r, read⟩
    have run := accepted_iff.1 ⟨l, r, read⟩
    rw [State.run_append] at run
    obtain ⟨σ, first, -⟩ := Option.bind_eq_some_iff.1 run
    exact ⟨σ, first⟩
  · rintro ⟨σ, run⟩
    obtain ⟨more, rest⟩ := σ.completes
    refine ⟨more, accepted_iff.2 ?_⟩
    rw [State.run_append, run]
    exact rest

/-- An unexpected character, and a place where something else is expected, come right after a
beginning of a rung and end it; all other errors are about what is missing at the end of a beginning
of a rung, and their place is that of what is not closed. -/
theorem readRung_malformed {e : RungError} (h : readRung source l = .error (.malformed e)) :
    (e.kind = .unexpectedChar ∨ e.kind = .expected →
      ∃ p, e.position = some p ∧ p ≤ source.length ∧ IsRungPrefix (source.take p) ∧
        (p < source.length → ¬IsRungPrefix (source.take (p + 1))) ∧
        (e.kind = .unexpectedChar →
          ∃ c, source[p]? = some c ∧ e.char = some (String.singleton c))) ∧
    (¬(e.kind = .unexpectedChar ∨ e.kind = .expected) →
      (e.kind = .emptyInput ∨ e.kind = .missingTerminator ∨ e.kind = .unclosedParen ∨
        e.kind = .unclosedBracket ∨ e.kind = .unexpectedEnd) ∧
      IsRungPrefix source ∧
      ∀ p, e.position = some p → e.kind = .unclosedParen ∧ source[p]? = some '(' ∨
        e.kind = .unclosedBracket ∧ source[p]? = some '[') := by
  -- The run of the automaton explains every error: it got stuck at a character, or it came to the
  -- end of the text without being finished.
  have explains := readRung_meets source l
  rw [h] at explains
  cases explains with
  -- What was passed leads somewhere, with the character it leads nowhere.
  | stuck passed c rest σ parts run stuck position kind =>
    subst parts
    constructor
    · intro _
      refine ⟨passed.length, position, ?_, ?_, fun _ => ?_, fun unexpected => ⟨c, ?_, ?_⟩⟩
      · rw [List.length_append]
        exact Nat.le_add_right _ _
      · rw [List.take_left]
        exact isRungPrefix_iff.2 ⟨σ, run⟩
      · rw [isRungPrefix_iff, List.take_length_add_append, List.take_succ_cons, List.take_zero,
          State.run_append, run, Option.bind_some, State.run_cons, stuck]
        rintro ⟨_, ⟨⟩⟩
      · rw [List.getElem?_append_right (Nat.le_refl _), Nat.sub_self]
        rfl
      · rcases kind with expected | ⟨-, char⟩
        · rw [unexpected] at expected
          cases expected
        · exact char
    · intro other
      rcases kind with expected | ⟨unexpected, -⟩
      · exact absurd (.inr expected) other
      · exact absurd (.inl unexpected) other
  -- The whole text leads somewhere, so it is a beginning; the kind says what is missing.
  | ended σ run unfinished kind =>
    have begins : IsRungPrefix source := isRungPrefix_iff.2 ⟨σ, run⟩
    rcases kind with ⟨expected, position⟩ | ⟨missing, position⟩ | ⟨p, position, opened⟩
    -- something is expected at the end
    · refine ⟨fun _ => ⟨source.length, position, Nat.le_refl _, ?_, fun less => ?_, fun other => ?_⟩,
        fun other => absurd (.inr expected) other⟩
      · rw [List.take_length]
        exact begins
      · exact absurd less (Nat.lt_irrefl _)
      · rw [expected] at other
        cases other
    -- nothing in particular is open, and no place is named
    · refine ⟨fun other => ?_, fun _ => ⟨?_, begins, fun p held => ?_⟩⟩
      · rcases missing with same | same | same <;> rw [same] at other <;> simp at other
      · rcases missing with empty | terminator | end_
        · exact .inl empty
        · exact .inr (.inl terminator)
        · exact .inr (.inr (.inr (.inr end_)))
      · rw [position] at held
        cases held
    -- a bracket is open, at the place that is named
    · refine ⟨fun other => ?_, fun _ => ⟨?_, begins, fun q held => ?_⟩⟩
      · rcases opened with ⟨same, -⟩ | ⟨same, -⟩ <;> rw [same] at other <;> simp at other
      · rcases opened with ⟨paren, -⟩ | ⟨bracket, -⟩
        · exact .inr (.inr (.inl paren))
        · exact .inr (.inr (.inr (.inl bracket)))
      · rw [position] at held
        cases held
        exact opened

theorem readRung_malformed_semicolon :
    readRung " [A(x),;".toList { maxIterations := 10, maxDepth := 4 } =
        .error (.malformed ⟨.unexpectedChar, some 7, some ";", none⟩) ∧
      IsRungPrefix " [A(x),".toList ∧ ¬IsRungPrefix " [A(x),;".toList := by
  have read : readRung " [A(x),;".toList { maxIterations := 10, maxDepth := 4 } =
      .error (.malformed ⟨.unexpectedChar, some 7, some ";", none⟩) := rfl
  obtain ⟨p, place, -, begins, ends, -⟩ := (readRung_malformed read).1 (.inl rfl)
  cases place
  exact ⟨read, begins, ends (by decide)⟩

end Plc.Ladder

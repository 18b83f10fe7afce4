/-
What the rules of a rung can do.

Each rule that gives a result does so in one of a few ways, and whenever one of these ways is open
it gives that result.

* `operand_eq_ok_iff`, `operands_eq_ok_iff`, `instruction_eq_ok_iff` — instructions;
* `branch_eq_ok_iff`, `branches_eq_ok_iff`, `parallel_eq_ok_iff` — groups;
* `series_eq_ok_iff`, `rung_eq_ok_iff` — rungs.
-/
import Plc.Proofs.Ladder.Run

namespace Plc.Ladder

open Text

namespace RungRule

variable {β : Type} {l : Limits} {c c' : Cursor} {b : β} {f : Unit → RungRule β}

/-! ### Bounds -/

theorem countPass_bind_eq_ok_iff : (countPass >>= f) l c = .ok b c' ↔
    c.passes + 1 ≤ l.maxIterations ∧ f () l c.counted = .ok b c' := by
  rw [bind_eq_ok_iff]
  constructor
  · rintro ⟨_, c₁, counted, run⟩
    obtain ⟨within, rfl⟩ := countPass_eq_ok_iff.1 counted
    exact ⟨within, run⟩
  · rintro ⟨within, run⟩
    exact ⟨(), _, countPass_eq_ok_iff.2 ⟨within, rfl⟩, run⟩

theorem checkSize_bind_eq_ok_iff {size : Nat} : (checkSize size >>= f) l c = .ok b c' ↔
    size ≤ l.maxCollectionSize ∧ f () l c = .ok b c' := by
  rw [bind_eq_ok_iff]
  constructor
  · rintro ⟨_, c₁, checked, run⟩
    obtain ⟨few, rfl⟩ := checkSize_eq_ok_iff.1 checked
    exact ⟨few, run⟩
  · rintro ⟨few, run⟩
    exact ⟨(), _, checkSize_eq_ok_iff.2 ⟨few, rfl⟩, run⟩

/-! ### Operands and instructions -/

/-- An operand: `?`, or a text of some length that is not blank. -/
theorem operand_eq_ok_iff {x : Operand} : operand l c = .ok x c' ↔
    c.pastBlanks.rest.head? = some '?' ∧ x = none ∧ c' = (c.pastBlanks.past 1).pastBlanks ∨
      c.pastBlanks.rest.head? ≠ some '?' ∧ ∃ n,
        operandLength none [] c.pastBlanks.position c.pastBlanks.rest = .ok n ∧
          trim (c.pastBlanks.rest.take n) ≠ [] ∧
          (trim (c.pastBlanks.rest.take n)).length ≤ l.maxStringLength ∧
          x = some (String.ofList (trim (c.pastBlanks.rest.take n))) ∧
          c' = c.pastBlanks.past n := by
  unfold operand
  rw [bind_of_ok (skipBlanks_apply l c), bind_of_ok (peek_apply l _)]
  generalize c.pastBlanks = d
  -- The cases are those of the reading: an open place, a text whose end is not found, a blank one,
  -- and one with a length to be checked.
  by_cases inferred : d.rest.head? = some '?'
  · rw [if_pos (beq_iff_eq.2 inferred), bind_of_ok (skip_apply 1 l d),
      bind_of_ok (skipBlanks_apply l _)]
    constructor
    · rintro ⟨⟩
      exact .inl ⟨inferred, rfl, rfl⟩
    · rintro (⟨-, rfl, rfl⟩ | ⟨other, -⟩)
      · rfl
      · exact absurd inferred other
  rw [if_neg ((not_congr beq_iff_eq).2 inferred), bind_of_ok (here_apply l d),
    bind_of_ok (get_apply l d)]
  dsimp only
  cases size : operandLength none [] d.position d.rest with
  | error e =>
    constructor
    · rintro ⟨⟩
    · rintro (⟨same, -⟩ | ⟨-, _, ⟨⟩, -⟩)
      exact absurd same inferred
  | ok n =>
    dsimp only
    rw [bind_of_ok (skip_apply n l d)]
    by_cases none_ : trim (d.rest.take n) = []
    · rw [if_pos (List.isEmpty_iff.2 none_)]
      constructor
      · intro h
        obtain ⟨_, c₁, fails, -⟩ := bind_eq_ok_iff.1 h
        cases fails
      · rintro (⟨same, -⟩ | ⟨-, _, ⟨⟩, some, -⟩)
        · exact absurd same inferred
        · exact absurd none_ some
    · rw [if_neg ((not_congr List.isEmpty_iff).2 none_)]
      constructor
      · intro h
        obtain ⟨_, c₁, place, h⟩ := bind_eq_ok_iff.1 h
        cases place
        obtain ⟨_, c₂, checked, h⟩ := bind_eq_ok_iff.1 h
        obtain ⟨short, rfl⟩ := checkLimit_eq_ok_iff.1 checked
        cases h
        exact .inr ⟨inferred, n, rfl, none_, short, rfl, rfl⟩
      · rintro (⟨same, -⟩ | ⟨-, _, ⟨⟩, -, short, rfl, rfl⟩)
        · exact absurd same inferred
        · rw [bind_of_ok (spanFrom_apply d.position l _),
            bind_of_ok (checkLimit_eq_ok_iff (u := ()).2 ⟨short, rfl⟩)]
          rfl

/-- What comes after an operand, told by conditions. -/
theorem operands_succ (opening left size : Nat) : operands opening (left + 1) size = (do
    countPass
    let x ← operand
    checkSize (size + 1)
    let next ← peek
    if next = some ',' then do
      skip 1
      let xs ← operands opening left (size + 1)
      return x :: xs
    else if next = some ')' then do
      skip 1
      return [x]
    else if next = none then fail .unclosedParen (some opening)
    else failExpected "',' or ')'" (← here)) := by
  rw [operands]
  refine bind_congr fun _ => bind_congr fun x => bind_congr fun _ => bind_congr fun next => ?_
  split
  · rfl
  · rfl
  · next comma paren => rw [if_neg fun same => comma (Option.some.inj same),
      if_neg fun same => paren (Option.some.inj same), if_neg nofun]
  · rfl

/-- Operands: one, and then either a comma and more of them or the closing parenthesis. -/
theorem operands_eq_ok_iff {opening left size : Nat} {xs : List Operand} :
    operands opening (left + 1) size l c = .ok xs c' ↔ c.passes + 1 ≤ l.maxIterations ∧
      ∃ x c₁, operand l c.counted = .ok x c₁ ∧
        size + 1 ≤ l.maxCollectionSize ∧
        ((∃ ys, c₁.rest.head? = some ',' ∧
            operands opening left (size + 1) l (c₁.past 1) = .ok ys c' ∧ xs = x :: ys) ∨
          c₁.rest.head? = some ')' ∧ xs = [x] ∧ c' = c₁.past 1) := by
  rw [operands_succ, countPass_bind_eq_ok_iff, bind_eq_ok_iff]
  -- Up to the next character there is one way only; it has to be a comma or the parenthesis.
  refine and_congr_right fun _ => exists_congr fun x => exists_congr fun c₁ =>
    and_congr_right fun _ => ?_
  rw [checkSize_bind_eq_ok_iff, bind_of_ok (peek_apply l c₁)]
  refine and_congr_right fun _ => ?_
  constructor
  · intro h
    by_cases comma : c₁.rest.head? = some ','
    · rw [if_pos comma, bind_of_ok (skip_apply 1 l c₁), bind_eq_ok_iff] at h
      obtain ⟨ys, c₂, more, done⟩ := h
      cases done
      exact .inl ⟨ys, comma, more, rfl⟩
    by_cases paren : c₁.rest.head? = some ')'
    · rw [if_neg comma, if_pos paren, bind_of_ok (skip_apply 1 l c₁)] at h
      cases h
      exact .inr ⟨paren, rfl, rfl⟩
    · rw [if_neg comma, if_neg paren] at h
      split at h
      · cases h
      · cases h
  · rintro (⟨ys, comma, more, rfl⟩ | ⟨paren, rfl, rfl⟩)
    · rw [if_pos comma, bind_of_ok (skip_apply 1 l c₁), bind_of_ok more]
      rfl
    · have comma : c₁.rest.head? ≠ some ',' := by simp [paren]
      rw [if_neg comma, if_pos paren]
      rfl

/-- The operands after the opening parenthesis, if there are any. -/
def arguments (opening : Nat) : RungRule (List Operand) := do
  if (← peek) = some ')' then do
    skip 1
    return []
  else operands opening (← read).maxIterations 0

theorem arguments_eq_ok_iff {opening : Nat} {xs : List Operand} :
    arguments opening l c = .ok xs c' ↔
      (c.rest.head? = some ')' ∧ xs = [] ∧ c' = c.past 1) ∨
        c.rest.head? ≠ some ')' ∧ operands opening l.maxIterations 0 l c = .ok xs c' := by
  unfold arguments
  rw [bind_of_ok (peek_apply l c)]
  by_cases paren : c.rest.head? = some ')'
  · rw [if_pos paren, bind_of_ok (skip_apply 1 l c)]
    constructor
    · rintro ⟨⟩
      exact .inl ⟨paren, rfl, rfl⟩
    · rintro (⟨-, rfl, rfl⟩ | ⟨other, -⟩)
      · rfl
      · exact absurd paren other
  · rw [if_neg paren, bind_of_ok (limits_apply l c)]
    constructor
    · exact fun h => .inr ⟨paren, h⟩
    · rintro (⟨same, -, -⟩ | ⟨-, h⟩)
      · exact absurd same paren
      · exact h

/-- An instruction, told by conditions. -/
theorem instruction_eq : instruction = (do
    let start ← here
    let mnemonic ← takeWhile isNameChar
    let next ← peek
    if next = some '(' then do
      let opening ← here
      skip 1
      skipBlanks
      let xs ← arguments opening
      let span ← element start
      return .instruction { mnemonic := String.ofList mnemonic, operands := xs, span }
    else if next = none then fail .unexpectedEnd
    else failExpected "'('" (← here)) := by
  unfold instruction
  refine bind_congr fun start => bind_congr fun name => bind_congr fun next => ?_
  split
  · rw [if_pos rfl]
    refine bind_congr fun opening => bind_congr fun _ => bind_congr fun _ => ?_
    unfold arguments
    rw [bind_assoc]
    refine bind_congr fun after => ?_
    split
    · rw [if_pos rfl, bind_assoc]
    · next other =>
      rw [if_neg other, bind_assoc]
  · next other => rw [if_neg fun same => other (Option.some.inj same), if_neg nofun]
  · rfl

/-- An instruction: a name, and operands in parentheses. -/
theorem instruction_eq_ok_iff {e : Element} : instruction l c = .ok e c' ↔
    c.pastName.rest.head? = some '(' ∧ ∃ xs c₁ span,
      arguments c.pastName.position l (c.pastName.past 1).pastBlanks = .ok xs c₁ ∧
      element c.position l c₁ = .ok span c' ∧
      e = .instruction ⟨String.ofList (c.rest.takeWhile isNameChar), xs, span⟩ := by
  rw [instruction_eq, bind_of_ok (here_apply l c), bind_of_ok (takeName_apply l c),
    bind_of_ok (peek_apply l _)]
  by_cases paren : c.pastName.rest.head? = some '('
  · rw [if_pos paren, bind_of_ok (here_apply l _), bind_of_ok (skip_apply 1 l _),
      bind_of_ok (skipBlanks_apply l _), bind_eq_ok_iff]
    constructor
    · rintro ⟨xs, c₁, args, rest⟩
      obtain ⟨span, c₂, counted, done⟩ := bind_eq_ok_iff.1 rest
      cases done
      exact ⟨paren, xs, c₁, span, args, counted, rfl⟩
    · rintro ⟨-, xs, c₁, span, args, counted, rfl⟩
      exact ⟨xs, c₁, args, bind_eq_ok_iff.2 ⟨span, c', counted, rfl⟩⟩
  · rw [if_neg paren]
    constructor
    · intro h
      split at h
      · cases h
      · cases h
    · exact fun h => absurd h.1 paren

/-! ### Groups -/

/-- The elements of a branch, told by conditions. -/
theorem branch_succ (item : RungRule Element) (opening left size : Nat) :
    branch item opening (left + 1) size = (do
      countPass
      skipBlanks
      let next ← peek
      if next = none then fail .unclosedBracket (some opening)
      else if next = some ',' ∨ next = some ']' then
        if size = 0 then failExpected "instruction" (← here) else return []
      else do
        let x ← item
        checkSize (size + 1)
        let xs ← branch item opening left (size + 1)
        return x :: xs) := by
  rw [branch]
  refine bind_congr fun _ => bind_congr fun _ => bind_congr fun next => ?_
  cases next with
  | none => rfl
  | some d =>
    rw [if_neg (Option.some_ne_none d)]
    simp only [Option.some.injEq, Bool.or_eq_true, beq_iff_eq]

/-- A branch ends before a comma or the closing bracket, or has one more element. -/
theorem branch_eq_ok_iff {item : RungRule Element} {opening left size : Nat} {es : List Element} :
    branch item opening (left + 1) size l c = .ok es c' ↔ c.passes + 1 ≤ l.maxIterations ∧
      ((c.counted.pastBlanks.rest.head? = some ',' ∨ c.counted.pastBlanks.rest.head? = some ']') ∧
          size ≠ 0 ∧ es = [] ∧ c' = c.counted.pastBlanks ∨
        c.counted.pastBlanks.rest.head? ≠ none ∧
          ¬ (c.counted.pastBlanks.rest.head? = some ',' ∨
            c.counted.pastBlanks.rest.head? = some ']') ∧
          ∃ x c₁ xs, item l c.counted.pastBlanks = .ok x c₁ ∧ size + 1 ≤ l.maxCollectionSize ∧
            branch item opening left (size + 1) l c₁ = .ok xs c' ∧ es = x :: xs) := by
  rw [branch_succ, countPass_bind_eq_ok_iff, bind_of_ok (skipBlanks_apply l _),
    bind_of_ok (peek_apply l _)]
  refine and_congr_right fun _ => ?_
  generalize c.counted.pastBlanks = d
  -- The end of the text is an error, before the sign that ends a branch is looked for.
  by_cases none_ : d.rest.head? = none
  · rw [if_pos none_]
    constructor
    · rintro ⟨⟩
    · rintro (⟨ends, -⟩ | ⟨some, -⟩)
      · simp [none_] at ends
      · exact absurd none_ some
  rw [if_neg none_]
  by_cases ends : d.rest.head? = some ',' ∨ d.rest.head? = some ']'
  · rw [if_pos ends]
    -- A branch may not be empty.
    by_cases first : size = 0
    · rw [if_pos first]
      constructor
      · rintro ⟨⟩
      · rintro (⟨-, other, -⟩ | ⟨-, other, -⟩)
        · exact absurd first other
        · exact absurd ends other
    · rw [if_neg first]
      constructor
      · rintro ⟨⟩
        exact .inl ⟨ends, first, rfl, rfl⟩
      · rintro (⟨-, -, rfl, rfl⟩ | ⟨-, other, -⟩)
        · rfl
        · exact absurd ends other
  · rw [if_neg ends, bind_eq_ok_iff]
    constructor
    · rintro ⟨x, c₁, one, rest⟩
      obtain ⟨few, rest⟩ := checkSize_bind_eq_ok_iff.1 rest
      obtain ⟨xs, c₂, more, done⟩ := bind_eq_ok_iff.1 rest
      cases done
      exact .inr ⟨none_, ends, x, c₁, xs, one, few, more, rfl⟩
    · rintro (⟨other, -⟩ | ⟨-, -, x, c₁, xs, one, few, more, rfl⟩)
      · exact absurd other ends
      · exact ⟨x, c₁, one, checkSize_bind_eq_ok_iff.2 ⟨few, bind_eq_ok_iff.2 ⟨xs, c', more, rfl⟩⟩⟩

/-- The branches after the first, told by conditions. -/
theorem branches_succ (item : RungRule Element) (opening left size : Nat) :
    branches item opening (left + 1) size = (do
      countPass
      skipBlanks
      let next ← peek
      if next = some ',' then do
        skip 1
        let b ← branch item opening (← read).maxIterations 0
        checkSize (size + 1)
        let bs ← branches item opening left (size + 1)
        return b :: bs
      else if next = some ']' then do
        skip 1
        return []
      else if next = none then fail .unclosedBracket (some opening)
      else failUnexpected) := by
  rw [branches]
  refine bind_congr fun _ => bind_congr fun _ => bind_congr fun next => ?_
  split
  · rfl
  · rfl
  · next comma bracket => rw [if_neg fun same => comma (Option.some.inj same),
      if_neg fun same => bracket (Option.some.inj same), if_neg nofun]
  · rfl

/-- A group ends with its closing bracket, or has one more branch after a comma. -/
theorem branches_eq_ok_iff {item : RungRule Element} {opening left size : Nat}
    {bs : List (List Element)} :
    branches item opening (left + 1) size l c = .ok bs c' ↔ c.passes + 1 ≤ l.maxIterations ∧
      (c.counted.pastBlanks.rest.head? = some ']' ∧ bs = [] ∧ c' = c.counted.pastBlanks.past 1 ∨
        c.counted.pastBlanks.rest.head? = some ',' ∧
          ∃ b c₁ more, branch item opening l.maxIterations 0 l (c.counted.pastBlanks.past 1) =
              .ok b c₁ ∧ size + 1 ≤ l.maxCollectionSize ∧
            branches item opening left (size + 1) l c₁ = .ok more c' ∧ bs = b :: more) := by
  rw [branches_succ, countPass_bind_eq_ok_iff, bind_of_ok (skipBlanks_apply l _),
    bind_of_ok (peek_apply l _)]
  refine and_congr_right fun _ => ?_
  generalize c.counted.pastBlanks = d
  -- All but a comma and the closing bracket is an error.
  by_cases comma : d.rest.head? = some ','
  · rw [if_pos comma, bind_of_ok (skip_apply 1 l d), bind_of_ok (limits_apply l _), bind_eq_ok_iff]
    constructor
    · rintro ⟨b, c₁, one, rest⟩
      obtain ⟨few, rest⟩ := checkSize_bind_eq_ok_iff.1 rest
      obtain ⟨more, c₂, others, done⟩ := bind_eq_ok_iff.1 rest
      cases done
      exact .inr ⟨comma, b, c₁, more, one, few, others, rfl⟩
    · rintro (⟨bracket, -⟩ | ⟨-, b, c₁, more, one, few, others, rfl⟩)
      · simp [comma] at bracket
      · exact ⟨b, c₁, one, checkSize_bind_eq_ok_iff.2 ⟨few, bind_eq_ok_iff.2 ⟨more, c', others, rfl⟩⟩⟩
  rw [if_neg comma]
  by_cases bracket : d.rest.head? = some ']'
  · rw [if_pos bracket, bind_of_ok (skip_apply 1 l d)]
    constructor
    · rintro ⟨⟩
      exact .inl ⟨bracket, rfl, rfl⟩
    · rintro (⟨-, rfl, rfl⟩ | ⟨other, -⟩)
      · rfl
      · exact absurd other comma
  · rw [if_neg bracket]
    constructor
    · intro h
      split at h
      · cases h
      · exact absurd h failUnexpected_ne_ok
    · rintro (⟨other, -⟩ | ⟨other, -⟩)
      · exact absurd other bracket
      · exact absurd other comma

/-- A group is opened, has its branches and is closed. -/
theorem parallel_eq_ok_iff {item : RungRule Element} {e : Element} :
    parallel item l c = .ok e c' ↔ c.usage.enter.depth ≤ l.maxDepth ∧
      ∃ b c₁ bs c₂ span,
        branch item c.position l.maxIterations 0 l { c.past 1 with usage := c.usage.enter } =
          .ok b c₁ ∧
        branches item c.position l.maxIterations 1 l c₁ = .ok bs c₂ ∧
        element c.position l { c₂ with usage := c₂.usage.leave } = .ok span c' ∧
        e = .parallel span (b :: bs) := by
  unfold parallel
  rw [bind_of_ok (here_apply l c)]
  constructor
  · intro h
    -- The depth is raised before it is checked, and lowered behind the branches.
    obtain ⟨_, c₁, entered, rest⟩ := bind_eq_ok_iff.1 h
    cases entered
    obtain ⟨now, c₂, got, rest₁⟩ := bind_eq_ok_iff.1 rest
    cases got
    obtain ⟨_, c₃, checked, rest₂⟩ := bind_eq_ok_iff.1 rest₁
    obtain ⟨shallow, rfl⟩ := checkLimit_eq_ok_iff.1 checked
    rw [bind_of_ok (skip_apply 1 l _), bind_of_ok (limits_apply l _)] at rest₂
    obtain ⟨b, c₄, first, rest₃⟩ := bind_eq_ok_iff.1 rest₂
    rw [bind_of_ok (limits_apply l _)] at rest₃
    obtain ⟨bs, c₅, others, rest₄⟩ := bind_eq_ok_iff.1 rest₃
    obtain ⟨_, c₆, left, rest₅⟩ := bind_eq_ok_iff.1 rest₄
    cases left
    obtain ⟨span, c₇, counted, done⟩ := bind_eq_ok_iff.1 rest₅
    cases done
    exact ⟨shallow, b, c₄, bs, c₅, span, first, others, counted, rfl⟩
  · rintro ⟨shallow, b, c₁, bs, c₂, span, first, others, counted, rfl⟩
    refine bind_eq_ok_iff.2 ⟨(), { c with usage := c.usage.enter }, rfl, ?_⟩
    rw [bind_of_ok (get_apply l _), bind_of_ok (checkLimit_eq_ok_iff (u := ()).2 ⟨shallow, rfl⟩),
      bind_of_ok (skip_apply 1 l _), bind_of_ok (limits_apply l _)]
    refine bind_eq_ok_iff.2 ⟨b, c₁, first, ?_⟩
    rw [bind_of_ok (limits_apply l _)]
    refine bind_eq_ok_iff.2 ⟨bs, c₂, others, ?_⟩
    exact bind_eq_ok_iff.2 ⟨(), _, rfl, bind_eq_ok_iff.2 ⟨span, c', counted, rfl⟩⟩

/-- An element is a group, or an instruction that begins with a letter. -/
theorem elementOr_eq_ok_iff {group : RungRule Element} {e : Element} :
    elementOr group l c = .ok e c' ↔ ∃ d, c.rest.head? = some d ∧
      (d = '[' ∧ group l c = .ok e c' ∨
        d ≠ '[' ∧ isNameStart d = true ∧ instruction l c = .ok e c') := by
  unfold elementOr
  rw [bind_of_ok (peek_apply l c)]
  -- The first character decides, and the bracket comes before the letters.
  cases c.rest.head? with
  | none =>
    constructor
    · exact fun h => absurd h failUnexpected_ne_ok
    · rintro ⟨_, ⟨⟩, -⟩
  | some d =>
    dsimp only
    by_cases bracket : d = '['
    · rw [if_pos (beq_iff_eq.2 bracket)]
      constructor
      · exact fun h => ⟨d, rfl, .inl ⟨bracket, h⟩⟩
      · rintro ⟨_, ⟨⟩, ⟨-, h⟩ | ⟨other, -⟩⟩
        · exact h
        · exact absurd bracket other
    rw [if_neg ((not_congr beq_iff_eq).2 bracket)]
    by_cases letter : isNameStart d = true
    · rw [if_pos letter]
      constructor
      · exact fun h => ⟨d, rfl, .inr ⟨bracket, letter, h⟩⟩
      · rintro ⟨_, ⟨⟩, ⟨same, -⟩ | ⟨-, -, h⟩⟩
        · exact absurd same bracket
        · exact h
    · rw [if_neg letter]
      constructor
      · exact fun h => absurd h failUnexpected_ne_ok
      · rintro ⟨_, ⟨⟩, ⟨same, -⟩ | ⟨-, same, -⟩⟩
        · exact absurd same bracket
        · exact absurd same letter

/-! ### Rungs -/

/-- The elements of a rung, told by conditions. -/
theorem series_succ (left size : Nat) : series (left + 1) size = (do
    countPass
    skipBlanks
    let next ← peek
    if next = some ';' then do
      skip 1
      return []
    else if next = none then fail .missingTerminator
    else do
      let x ← elementWithin (← read).maxDepth
      checkSize (size + 1)
      let xs ← series left (size + 1)
      return x :: xs) := by
  rw [series]
  refine bind_congr fun _ => bind_congr fun _ => bind_congr fun next => ?_
  split
  · rfl
  · rfl
  · next semicolon => rw [if_neg fun same => semicolon (Option.some.inj same), if_neg nofun]

/-- A rung ends with its semicolon, or has one more element. -/
theorem series_eq_ok_iff {left size : Nat} {es : List Element} :
    series (left + 1) size l c = .ok es c' ↔ c.passes + 1 ≤ l.maxIterations ∧
      (c.counted.pastBlanks.rest.head? = some ';' ∧ es = [] ∧ c' = c.counted.pastBlanks.past 1 ∨
        c.counted.pastBlanks.rest.head? ≠ some ';' ∧ c.counted.pastBlanks.rest.head? ≠ none ∧
          ∃ x c₁ xs, elementWithin l.maxDepth l c.counted.pastBlanks = .ok x c₁ ∧
            size + 1 ≤ l.maxCollectionSize ∧ series left (size + 1) l c₁ = .ok xs c' ∧
            es = x :: xs) := by
  rw [series_succ, countPass_bind_eq_ok_iff, bind_of_ok (skipBlanks_apply l _),
    bind_of_ok (peek_apply l _)]
  refine and_congr_right fun _ => ?_
  generalize c.counted.pastBlanks = d
  -- The semicolon is looked for first, then the end of the text.
  by_cases semicolon : d.rest.head? = some ';'
  · rw [if_pos semicolon, bind_of_ok (skip_apply 1 l d)]
    constructor
    · rintro ⟨⟩
      exact .inl ⟨semicolon, rfl, rfl⟩
    · rintro (⟨-, rfl, rfl⟩ | ⟨other, -⟩)
      · rfl
      · exact absurd semicolon other
  rw [if_neg semicolon]
  by_cases none_ : d.rest.head? = none
  · rw [if_pos none_]
    constructor
    · rintro ⟨⟩
    · rintro (⟨other, -⟩ | ⟨-, some, -⟩)
      · exact absurd other semicolon
      · exact absurd none_ some
  · rw [if_neg none_, bind_of_ok (limits_apply l d), bind_eq_ok_iff]
    constructor
    · rintro ⟨x, c₁, one, rest⟩
      obtain ⟨few, rest⟩ := checkSize_bind_eq_ok_iff.1 rest
      obtain ⟨xs, c₂, more, done⟩ := bind_eq_ok_iff.1 rest
      cases done
      exact .inr ⟨semicolon, none_, x, c₁, xs, one, few, more, rfl⟩
    · rintro (⟨other, -⟩ | ⟨-, -, x, c₁, xs, one, few, more, rfl⟩)
      · exact absurd other semicolon
      · exact ⟨x, c₁, one, checkSize_bind_eq_ok_iff.2 ⟨few, bind_eq_ok_iff.2 ⟨xs, c', more, rfl⟩⟩⟩

/-- A whole rung is its elements, with blanks around them. -/
theorem rung_eq_ok_iff {r : Rung} : rung l c = .ok r c' ↔ c.pastBlanks.rest.head? ≠ none ∧
    ∃ es c₁, series l.maxIterations 0 l c.pastBlanks = .ok es c₁ ∧
      c₁.pastBlanks.rest.head? = none ∧ r = ⟨es⟩ ∧ c' = c₁.pastBlanks := by
  unfold rung
  rw [bind_of_ok (skipBlanks_apply l c), bind_of_ok (peek_apply l _)]
  generalize c.pastBlanks = d
  cases some : d.rest.head? with
  | none =>
    constructor
    · rintro ⟨⟩
    · exact fun h => absurd rfl h.1
  | some a =>
    -- Behind the elements only blanks may come, so the last look is at the end of the text.
    have whole : (do
        let elements ← series (← read).maxIterations 0
        skipBlanks
        if (← peek).isSome then failUnexpected
        return { elements } : RungRule Rung) l d = .ok r c' ↔
        ∃ es c₁, series l.maxIterations 0 l d = .ok es c₁ ∧ c₁.pastBlanks.rest.head? = none ∧
          r = ⟨es⟩ ∧ c' = c₁.pastBlanks := by
      rw [bind_of_ok (limits_apply l d), bind_eq_ok_iff]
      refine exists_congr fun es => exists_congr fun c₁ => and_congr_right fun _ => ?_
      rw [bind_of_ok (skipBlanks_apply l c₁), bind_of_ok (peek_apply l _)]
      cases c₁.pastBlanks.rest.head? with
      | none =>
        constructor
        · rintro ⟨⟩
          exact ⟨rfl, rfl, rfl⟩
        · rintro ⟨-, rfl, rfl⟩
          rfl
      | some b =>
        constructor
        · intro h
          obtain ⟨_, c₂, fails, -⟩ := bind_eq_ok_iff.1 h
          exact absurd fails failUnexpected_ne_ok
        · rintro ⟨⟨⟩, -⟩
    exact whole.trans ⟨fun h => ⟨nofun, h⟩, fun h => h.2⟩

end RungRule

end Plc.Ladder

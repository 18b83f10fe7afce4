/-
How the reading of a rung ends.

Each rule goes on to the place in the grammar that its text leads to, or ends with an error that
explains the text, or passes a bound that is too small for the text.

* `operand_meets`, `operands_meet`, `instruction_meets` — instructions;
* `branch_meets`, `branches_meet`, `elementWithin_meets` — groups and elements;
* `series_meets`, `rung_meets` — rungs.
-/
import Plc.Proofs.Ladder.Printed
import Plc.Proofs.Ladder.Stands

namespace Plc.Ladder

open Text State

namespace RungRule

variable {source : List Char} {l : Limits} {c : Cursor} {σ : State} {spare : Nat}
variable {groups outer : List Bool}

/-! ### Instructions -/

/-- An operand has to come, after blanks. -/
structure Expects (groups : List Bool) (σ : State) (rest : List Char) : Prop where
  blank : ∀ b, isBlank b = true → σ.step b = some σ
  first : ∀ a ∈ (rest.dropWhile isBlank).head?, σ.step a = beforeOperand groups a
  unfinished : σ ≠ .done

theorem expects_operand (groups : List Bool) (rest : List Char) :
    Expects groups (.operand groups) rest where
  blank _ hb := if_pos hb
  first _ _ := rfl
  unfinished := nofun

/-- After the opening parenthesis an operand has to come, unless the closing one does. -/
theorem expects_arguments {rest : List Char} (blank : ∀ a ∈ rest.head?, isBlank a = false)
    (other : rest.head? ≠ some ')') : Expects groups (.arguments groups) rest where
  blank b hb := by
    have plain : b ≠ ')' := by
      rintro rfl
      cases hb
    rw [step, if_neg plain, if_pos hb]
  first a ha := by
    have start : rest.dropWhile isBlank = rest := trimStart_eq_self_iff.2 blank
    rw [start] at ha
    have plain : a ≠ ')' := by
      rintro rfl
      exact other ha
    rw [step, if_neg plain, if_neg (Bool.eq_false_iff.1 (blank a ha))]
  unfinished := nofun

/-- The characters of an operand lead into it. -/
theorem run_operand {text : List Char} {i : Inside} (nonempty : text ≠ [])
    (first : ∀ a ∈ text.head?, σ.step a = (Inside.closed.step a).map (inside groups))
    (steps : Inside.closed.steps text = some i) : σ.run text = some (inside groups i) := by
  obtain ⟨a, as, rfl⟩ := List.exists_cons_of_ne_nil nonempty
  obtain ⟨j, here, rest⟩ := Option.bind_eq_some_iff.1 steps
  rw [run_cons, first a rfl, here]
  exact run_inside groups rest

/-- An operand that is wrong explains the text. -/
theorem operand_explains {e : RungError} (h : Stands source c σ spare)
    (first : ∀ a ∈ c.rest.head?, σ.step a = (Inside.closed.step a).map (inside groups))
    (size : operandLength none [] c.position c.rest = .error e) : Explains source e := by
  rcases operandLength_error size with
    ⟨text, a, rest, i, parts, steps, stuck, within, rfl⟩ | ⟨i, b, place, steps, open_, rfl⟩
  -- A bracket is open, so that the character where the operand stops is wrong there.
  · have nonempty : text ≠ [] := by
      rintro rfl
      cases steps
      exact within rfl
    have run := run_operand nonempty (fun b hb => first b (by
      obtain ⟨d, ds, rfl⟩ := List.exists_cons_of_ne_nil nonempty
      rw [parts]
      exact hb)) steps
    refine (h.past parts run).stuck (a := a) ?_ ?_ rfl (.inr ⟨rfl, rfl⟩)
    · rw [Cursor.past_rest, parts, List.drop_left]
      rfl
    · rw [step, stuck]
      exact if_neg within
  -- The text ends while a bracket is open; it is found at the place that is named.
  · obtain ⟨⟨⟩⟩ | ⟨k, rfl, here, opens⟩ := open_
    have nonempty : c.rest ≠ [] := by
      intro none_
      rw [none_] at here
      cases here
    obtain ⟨passed, whole, length, before⟩ := h.passed
    have run : State.start.run source = some (inside groups i) := by
      rw [whole, run_append, before]
      exact run_operand nonempty first steps
    have held : source[c.position + k]? = some b := by
      rw [whole, ← length, List.getElem?_append_right (Nat.le_add_right _ _), Nat.add_sub_cancel_left]
      exact here
    refine .ended _ run (by simp) (.inr (.inr ⟨_, rfl, ?_⟩))
    simp only [Operand.opens, Bool.or_eq_true, beq_iff_eq] at opens
    rcases opens with rfl | rfl
    · exact .inl ⟨rfl, held⟩
    · exact .inr ⟨rfl, held⟩

/-- An operand leads to where a comma or the closing parenthesis has to come. -/
theorem operand_meets (h : Stands source c σ spare) (expects : Expects groups σ c.rest) :
    Meets source l operand c fun _ c' =>
      (∃ τ, Stands source c' τ (spare - 2) ∧ τ ≠ .done ∧
        ∀ a ∈ c'.rest.head?, τ.step a = afterOperand groups a) ∧
      c.position < c'.position ∧ c'.usage = c.usage := by
  unfold operand
  refine .next (skipBlanks_apply l c) (.next (peek_apply l _) ?_)
  have stands := h.pastBlanks expects.blank
  have le : c.position ≤ c.pastBlanks.position := Nat.le_add_right _ _
  have first : ∀ a ∈ c.pastBlanks.rest.head?, σ.step a = beforeOperand groups a := by
    rw [Cursor.pastBlanks_rest]
    exact expects.first
  have plain := c.pastBlanks_head
  show Meets _ _ _ _ fun _ c' => _ ∧ _ ∧ c'.usage = c.pastBlanks.usage
  generalize c.pastBlanks = d at stands le first plain
  -- An open place is one character, behind which blanks are passed over here and not later.
  by_cases inferred : d.rest.head? = some '?'
  · rw [if_pos (beq_iff_eq.2 inferred)]
    refine .next (skip_apply 1 l d) (.next (skipBlanks_apply l _) (.pure ⟨⟨.inferred groups, ?_,
      nofun, ?_⟩, ?_, rfl⟩))
    · exact (stands.past_one inferred (first '?' inferred)).pastBlanks fun b hb => if_pos hb
    · exact fun a ha => if_neg (Bool.eq_false_iff.1 ((d.past 1).pastBlanks_head a ha))
    · show c.position < d.position + 1 + _
      omega
  rw [if_neg ((not_congr beq_iff_eq).2 inferred)]
  refine .next (here_apply l d) (.next (get_apply l d) ?_)
  dsimp only
  -- Any other character is the first one inside an operand.
  have enters : ∀ a ∈ d.rest.head?, σ.step a = (Inside.closed.step a).map (inside groups) := by
    intro a ha
    have other : a ≠ '?' := by
      rintro rfl
      exact inferred ha
    rw [first a ha, beforeOperand, if_neg (Bool.eq_false_iff.1 (plain a ha)), if_neg other]
  cases size : operandLength none [] d.position d.rest with
  | error e => exact operand_explains stands enters size
  | ok n =>
    obtain ⟨text, rest, i, parts, rfl, steps, stop⟩ := operandLength_ok size
    refine .next (skip_apply _ l d) ?_
    rw [parts, List.take_left]
    -- after the characters of the operand only a comma or the closing parenthesis can come
    have after : ∀ a ∈ rest.head?, i = Inside.closed ∧ Inside.ends a = true := by
      rintro a ha
      rcases stop with ⟨rfl, -⟩ | ⟨closed, b, more, rfl, ends⟩
      · cases ha
      · cases ha
        exact ⟨closed, ends⟩
    cases text with
    -- No character is taken where the operand ends at once, and none was expected there.
    | nil =>
      refine .bind (P := fun _ _ => False) (.failExpected stands "operand" expects.unfinished
        fun a ha => ?_) nofun
      rw [enters a ha, Inside.step_closed (after a (by rwa [parts] at ha)).2]
      rfl
    | cons a as =>
      have head : d.rest.head? = some a := by rw [parts]; rfl
      rw [if_neg ((not_congr List.isEmpty_iff).2 (trim_ne_nil (plain a head)))]
      have run := run_operand (List.cons_ne_nil a as) (fun b hb => enters b (head.trans hb)) steps
      have there := stands.past parts run
      refine .next (spanFrom_apply _ l _) (.checkLimit ?_ (.pure ⟨⟨_, there.mono ?_, nofun, ?_⟩, ?_,
        rfl⟩))
      · have := (trim_sublist (a :: as)).length_le
        have := congrArg List.length parts
        have := stands.position_le
        rw [List.length_append] at *
        omega
      · rw [List.length_cons]
        omega
      · intro b hb
        rw [Cursor.past_rest, parts, List.drop_left] at hb
        obtain ⟨rfl, ends⟩ := after b hb
        rw [step, Inside.step_closed ends]
        rfl
      · show c.position < d.position + (as.length + 1)
        omega

/-- The operands lead to the end of their instruction. -/
theorem operands_meet {opening left size : Nat} (h : Stands source c σ 0)
    (expects : Expects groups σ c.rest) (paren : source[opening]? = some '(')
    (few : size ≤ c.position) (all : l.maxIterations ≤ left + c.position) :
    Meets source l (operands opening left size) c fun _ c' =>
      Stands source c' (.series (fill groups)) 0 ∧ c.position < c'.position ∧ c'.usage = c.usage := by
  -- Induction on the passes that are left. Each pass moves on, so they do not run out before the
  -- text does.
  induction left generalizing size c σ with
  | zero => exact .tooManyPasses h (by omega)
  | succ left ih =>
    rw [operands_succ]
    refine .countPass h (Nat.zero_le 1) fun counted => ?_
    refine .bind (operand_meets counted expects) ?_
    rintro x c₁ ⟨⟨τ, stands, unfinished, ends⟩, on, usage⟩
    rw [Cursor.counted_position] at on
    refine .checkSize stands (by omega) (.next (peek_apply l c₁) ?_)
    -- The automaton is behind an operand, where it knows a comma and the parenthesis only.
    by_cases comma : c₁.rest.head? = some ','
    · rw [if_pos comma]
      refine .next (skip_apply 1 l c₁) (.bind (ih (stands.past_one comma (ends _ comma))
        (expects_operand _ _) ?_ ?_) ?_)
      · rw [Cursor.past_position]
        omega
      · rw [Cursor.past_position]
        omega
      · rintro xs c' ⟨there, further, same⟩
        rw [Cursor.past_position] at further
        exact .pure ⟨there, by omega, same.trans usage⟩
    rw [if_neg comma]
    by_cases closed : c₁.rest.head? = some ')'
    · rw [if_pos closed]
      refine .next (skip_apply 1 l c₁) (.pure ⟨stands.past_one closed (ends _ closed), ?_, usage⟩)
      rw [Cursor.past_position]
      omega
    rw [if_neg closed]
    by_cases none_ : c₁.rest.head? = none
    · rw [if_pos none_]
      exact .fail (.ended τ (stands.run none_) unfinished (.inr (.inr ⟨_, rfl, .inl ⟨rfl, paren⟩⟩)))
    · rw [if_neg none_]
      refine .next (here_apply l c₁) (.failExpected stands _ unfinished fun a ha => ?_)
      have plain : a ≠ ',' ∧ a ≠ ')' := by
        constructor
        · rintro rfl
          exact comma ha
        · rintro rfl
          exact closed ha
      rw [ends a ha, afterOperand, if_neg plain.1, if_neg plain.2]

/-- What stands between the parentheses leads to the end of the instruction. -/
theorem arguments_meet {opening : Nat} (h : Stands source c (.arguments groups) 0)
    (blank : ∀ a ∈ c.rest.head?, isBlank a = false) (paren : source[opening]? = some '(') :
    Meets source l (arguments opening) c fun _ c' =>
      Stands source c' (.series (fill groups)) 0 ∧ c.position < c'.position ∧ c'.usage = c.usage := by
  unfold arguments
  refine .next (peek_apply l c) ?_
  by_cases closed : c.rest.head? = some ')'
  · rw [if_pos closed]
    exact .next (skip_apply 1 l c) (.pure ⟨h.past_one closed rfl, Nat.lt_succ_self _, rfl⟩)
  · rw [if_neg closed]
    exact .next (limits_apply l c) (operands_meet h (expects_arguments blank closed) paren
      (Nat.zero_le _) (Nat.le_add_right _ _))

/-- An instruction leads to the end of an element. -/
theorem instruction_meets {a : Char} (h : Stands source c (.series groups) 1)
    (head : c.rest.head? = some a) (letter : isNameStart a = true) :
    Meets source l instruction c fun _ c' => Stands source c' (.series (fill groups)) 0 ∧
      c.position < c'.position ∧ c'.usage.depth = c.usage.depth := by
  obtain ⟨named, on⟩ := h.pastName head letter
  rw [instruction_eq]
  refine .next (here_apply l c) (.next (takeName_apply l c) (.next (peek_apply l _) ?_))
  -- A parenthesis has to come behind the name, as the automaton says.
  by_cases paren : c.pastName.rest.head? = some '('
  · rw [if_pos paren]
    refine .next (here_apply l _) (.next (skip_apply 1 l _) (.next (skipBlanks_apply l _) ?_))
    have stays (b : Char) (hb : isBlank b = true) :
        (State.arguments groups).step b = some (.arguments groups) := by
      have plain : b ≠ ')' := by
        rintro rfl
        cases hb
      rw [step, if_neg plain, if_pos hb]
    have opened : (State.name groups).step '(' = some (.arguments groups) := rfl
    have inner := (named.past_one paren opened).pastBlanks stays
    refine .bind (arguments_meet inner (Cursor.pastBlanks_head _) (named.getElem? paren)) ?_
    rintro xs c₁ ⟨there, further, same⟩
    have later : c.position < c₁.position := by
      have : c.pastName.position + 1 ≤ (c.pastName.past 1).pastBlanks.position := Nat.le_add_right _ _
      omega
    -- The node that is counted is paid for by the character of the name.
    have nodes : c₁.usage.addNode.nodes + c₁.usage.addNode.depth ≤ c₁.position := by
      have := h.nodes
      rw [same]
      show c.usage.nodes + 1 + c.usage.depth ≤ _
      omega
    have depth : c₁.usage.depth = c.usage.depth := by
      rw [same]
      rfl
    exact .element { there with nodes := nodes } fun span =>
      .pure ⟨{ there with nodes := nodes }, later, depth⟩
  rw [if_neg paren]
  by_cases none_ : c.pastName.rest.head? = none
  · rw [if_pos none_]
    exact .fail (.ended _ (named.run none_) (by simp) (.inr (.inl ⟨.inr (.inr rfl), rfl⟩)))
  · rw [if_neg none_]
    refine .next (here_apply l _) (.failExpected named _ (by simp) fun b hb => ?_)
    have plain : b ≠ '(' := by
      rintro rfl
      exact paren hb
    rw [step, if_neg (Bool.eq_false_iff.1 (c.pastName_head b hb)), if_neg plain]

/-! ### Groups -/

/-- A rule for elements in which groups may be nested `levels` deep leads to the end of an
element. -/
def MeetsElement (source : List Char) (l : Limits) (levels : Nat) (item : RungRule Element) : Prop :=
  ∀ ⦃c : Cursor⦄ ⦃groups : List Bool⦄ ⦃a : Char⦄, Stands source c (.series groups) 1 →
    l.maxDepth ≤ levels + c.usage.depth → c.rest.head? = some a →
    (a ≠ '[' → isNameStart a = false → (State.series groups).step a = none) →
    Meets source l item c fun _ c' => Stands source c' (.series (fill groups)) 0 ∧
      c.position < c'.position ∧ c'.usage.depth = c.usage.depth

variable {item : RungRule Element} {levels : Nat}

/-- The elements of a branch lead to the comma or the bracket after it. -/
theorem branch_meets (items : MeetsElement source l levels item) {opening left size : Nat}
    (h : Stands source c (.series ((size != 0) :: outer)) 0) (bracket : source[opening]? = some '[')
    (few : size ≤ c.position) (all : l.maxIterations ≤ left + c.position)
    (deep : l.maxDepth ≤ levels + c.usage.depth) :
    Meets source l (branch item opening left size) c fun _ c' =>
      Stands source c' (.series (true :: outer)) 1 ∧ c.position ≤ c'.position ∧
        c'.usage.depth = c.usage.depth ∧
        (c'.rest.head? = some ',' ∨ c'.rest.head? = some ']') := by
  -- Induction on the passes that are left; whether the branch is still empty is part of the state.
  induction left generalizing size c with
  | zero => exact .tooManyPasses h (by omega)
  | succ left ih =>
    rw [branch_succ]
    refine .countPass h (Nat.zero_le 1) fun counted => ?_
    refine .next (skipBlanks_apply l _) (.next (peek_apply l _) ?_)
    have stands := counted.pastBlanks fun b hb => step_series_blank _ hb
    have plain := c.counted.pastBlanks_head
    have on : c.position ≤ c.counted.pastBlanks.position := Nat.le_add_right _ _
    show Meets _ _ _ _ fun _ c' => _ ∧ _ ∧ c'.usage.depth = c.counted.pastBlanks.usage.depth ∧ _
    change l.maxDepth ≤ levels + c.counted.pastBlanks.usage.depth at deep
    generalize c.counted.pastBlanks = d at stands plain on deep
    by_cases none_ : d.rest.head? = none
    · rw [if_pos none_]
      exact .fail (.ended _ (stands.run none_) nofun
        (.inr (.inr ⟨_, rfl, .inr ⟨rfl, bracket⟩⟩)))
    rw [if_neg none_]
    by_cases ends : d.rest.head? = some ',' ∨ d.rest.head? = some ']'
    · rw [if_pos ends]
      -- In an empty branch neither sign leads anywhere.
      by_cases first : size = 0
      · subst first
        refine .next (here_apply l d) (.failExpected stands _ nofun fun a ha => ?_)
        have mark : a = ',' ∨ a = ']' := by
          rw [ha] at ends
          exact ends.imp Option.some.inj Option.some.inj
        rcases mark with rfl | rfl
        · rfl
        · rfl
      · rw [if_neg first]
        have full : (size != 0) = true := bne_iff_ne.2 first
        rw [full] at stands
        exact .pure ⟨stands, on, rfl, ends⟩
    · rw [if_neg ends]
      obtain ⟨a, head⟩ := Option.ne_none_iff_exists'.1 none_
      -- What is no element leads nowhere, since the signs that end the branch are excluded.
      refine .bind (items stands deep head fun other letter => ?_) ?_
      · refine step_series_none _ (plain a head) other letter nofun fun _ _ => ⟨?_, ?_⟩
        · rintro rfl
          exact ends (.inl head)
        · rintro rfl
          exact ends (.inr head)
      · rintro e c₁ ⟨there, further, depth⟩
        refine .checkSize there (by omega) (.bind (ih there (by omega) (by omega)
          (by rw [depth]; exact deep)) ?_)
        rintro es c' ⟨last, more, same, next⟩
        exact .pure ⟨last, by omega, same.trans depth, next⟩

/-- The branches after the first lead to the end of the group. -/
theorem branches_meet (items : MeetsElement source l levels item) {opening left size : Nat}
    (h : Stands source c (.series (true :: outer)) 1) (bracket : source[opening]? = some '[')
    (next : c.rest.head? = some ',' ∨ c.rest.head? = some ']')
    (few : size ≤ c.position) (all : l.maxIterations ≤ left + c.position)
    (deep : l.maxDepth ≤ levels + c.usage.depth) :
    Meets source l (branches item opening left size) c fun _ c' =>
      Stands source c' (.series (fill outer)) 0 ∧ c.position < c'.position ∧
        c'.usage.depth = c.usage.depth := by
  -- Induction on the passes that are left; the branch in front has elements, so a comma and the
  -- bracket lead on.
  induction left generalizing size c with
  | zero => exact .tooManyPasses h (by omega)
  | succ left ih =>
    rw [branches_succ]
    refine .countPass h (Nat.le_refl 1) fun counted => ?_
    -- A branch ends right before its sign, so no blanks are in between.
    have start : c.counted.pastBlanks = c.counted := by
      refine Cursor.pastBlanks_eq_self fun a ha => ?_
      rw [Cursor.counted_rest] at ha
      rcases next with comma | close
      · cases comma.symm.trans ha
        rfl
      · cases close.symm.trans ha
        rfl
    refine .next (skipBlanks_apply l _) (.next (peek_apply l _) ?_)
    rw [start]
    by_cases comma : c.counted.rest.head? = some ','
    · rw [if_pos comma]
      refine .next (skip_apply 1 l _) (.next (limits_apply l _) ?_)
      have inner : Stands source (c.counted.past 1) (.series (false :: outer)) 0 :=
        counted.past_one comma rfl
      have on : (c.counted.past 1).position = c.position + 1 := rfl
      refine .bind (branch_meets items inner bracket (Nat.zero_le _) (Nat.le_add_right _ _) deep) ?_
      rintro b c₁ ⟨there, further, depth, next⟩
      refine .checkSize there (by omega) (.bind (ih there next (by omega) (by omega)
        (by rw [depth]; exact deep)) ?_)
      rintro bs c' ⟨last, more, same⟩
      exact .pure ⟨last, by omega, same.trans depth⟩
    · have close : c.counted.rest.head? = some ']' := next.resolve_left comma
      rw [if_neg comma, if_pos close]
      exact .next (skip_apply 1 l _)
        (.pure ⟨counted.past_one close rfl, Nat.lt_succ_self _, rfl⟩)

/-- A group leads to the end of an element. -/
theorem parallel_meets (items : MeetsElement source l levels item)
    (h : Stands source c (.series groups) 1) (deep : l.maxDepth ≤ levels + 1 + c.usage.depth)
    (head : c.rest.head? = some '[') :
    Meets source l (parallel item) c fun _ c' => Stands source c' (.series (fill groups)) 0 ∧
      c.position < c'.position ∧ c'.usage.depth = c.usage.depth := by
  unfold parallel
  refine .next (here_apply l c) (.next (modify_apply _ l c) (.next (get_apply l _)
    (.checkLimit ?_ (.next (skip_apply 1 l _) (.next (limits_apply l _) ?_)))))
  · have := h.nodes
    have := h.position_le
    show c.usage.depth + 1 ≤ _
    omega
  -- Behind the bracket the group is one deeper, and its first branch is empty.
  have entered : Stands source { c.past 1 with usage := c.usage.enter } (.series (false :: groups)) 0 := by
    refine { h.past_one head (step_series_bracket groups) with nodes := ?_ }
    have := h.nodes
    show c.usage.nodes + (c.usage.depth + 1) ≤ c.position + 1
    omega
  have deeper : l.maxDepth ≤ levels + c.usage.enter.depth := by
    show l.maxDepth ≤ levels + (c.usage.depth + 1)
    omega
  have bracket := h.getElem? head
  refine .bind (branch_meets items entered bracket (Nat.zero_le _) (Nat.le_add_right _ _) deeper) ?_
  rintro b c₁ ⟨first, on, depth, next⟩
  change c.position + 1 ≤ c₁.position at on
  change c₁.usage.depth = c.usage.depth + 1 at depth
  refine .next (limits_apply l _) (.bind (branches_meet items first bracket next (by omega)
    (Nat.le_add_right _ _) (by omega)) ?_)
  rintro bs c₂ ⟨last, further, same⟩
  -- Behind the group the depth is as it was, and the group is counted.
  have left : Stands source { c₂ with usage := c₂.usage.leave.addNode } (.series (fill groups)) 0 := by
    refine { last with nodes := ?_ }
    have := last.nodes
    show c₂.usage.nodes + 1 + (c₂.usage.depth - 1) ≤ c₂.position
    omega
  refine .next (modify_apply _ l c₂) (.element left fun span => .pure ⟨left, ?_, ?_⟩)
  · show c.position < c₂.position
    omega
  · show c₂.usage.depth - 1 = c.usage.depth
    omega

/-- An element leads to its end when a group does. -/
theorem elementOr_meets {group : RungRule Element}
    (meets : ∀ ⦃c groups⦄, Stands source c (.series groups) 1 →
      l.maxDepth ≤ levels + c.usage.depth → c.rest.head? = some '[' →
      Meets source l group c fun _ c' => Stands source c' (.series (fill groups)) 0 ∧
        c.position < c'.position ∧ c'.usage.depth = c.usage.depth) :
    MeetsElement source l levels (elementOr group) := by
  intro c groups a h deep head other
  unfold elementOr
  refine .next (peek_apply l c) ?_
  rw [head]
  dsimp only
  by_cases bracket : a = '['
  · subst bracket
    exact meets h deep head
  rw [if_neg ((not_congr beq_iff_eq).2 bracket)]
  by_cases letter : isNameStart a = true
  · rw [if_pos letter]
    exact instruction_meets h head letter
  · rw [if_neg letter]
    exact .failUnexpected h head (other bracket (Bool.eq_false_iff.2 letter))

theorem elementWithin_meets (levels : Nat) :
    MeetsElement source l levels (elementWithin levels) := by
  induction levels with
  | zero => exact elementOr_meets fun c groups h deep _ => .tooDeep h (by omega)
  | succ below ih => exact elementOr_meets fun c groups h deep head => parallel_meets ih h deep head

/-! ### Rungs -/

/-- The elements of a rung lead to its end. -/
theorem series_meets {left size : Nat} (h : Stands source c (.series []) 0)
    (few : size ≤ c.position) (all : l.maxIterations ≤ left + c.position) :
    Meets source l (series left size) c fun _ c' => ∃ spare, Stands source c' .done spare := by
  -- Induction on the passes that are left, as for a branch; the semicolon leads to the end.
  induction left generalizing size c with
  | zero => exact .tooManyPasses h (by omega)
  | succ left ih =>
    rw [series_succ]
    refine .countPass h (Nat.zero_le 1) fun counted => ?_
    refine .next (skipBlanks_apply l _) (.next (peek_apply l _) ?_)
    have stands := counted.pastBlanks fun b hb => step_series_blank _ hb
    have plain := c.counted.pastBlanks_head
    have on : c.position ≤ c.counted.pastBlanks.position := Nat.le_add_right _ _
    generalize c.counted.pastBlanks = d at stands plain on
    by_cases semicolon : d.rest.head? = some ';'
    · rw [if_pos semicolon]
      exact .next (skip_apply 1 l d) (.pure ⟨_, stands.past_one semicolon rfl⟩)
    rw [if_neg semicolon]
    by_cases none_ : d.rest.head? = none
    · rw [if_pos none_]
      exact .fail (.ended _ (stands.run none_) nofun (.inr (.inl ⟨.inr (.inl rfl), rfl⟩)))
    · rw [if_neg none_]
      obtain ⟨a, head⟩ := Option.ne_none_iff_exists'.1 none_
      refine .next (limits_apply l d) (.bind (elementWithin_meets l.maxDepth stands
        (Nat.le_add_right _ _) head fun other letter => ?_) ?_)
      · refine step_series_none _ (plain a head) other letter (fun _ => ?_) nofun
        rintro rfl
        exact semicolon head
      · rintro e c₁ ⟨there, further, -⟩
        refine .checkSize there (by omega) (.bind (ih there (by omega) (by omega)) ?_)
        exact fun es c' last => .pure last

/-- A whole rung. -/
theorem rung_meets : Meets source l rung { rest := source } fun _ _ =>
    State.start.run source = some .done := by
  have begins : Stands source { rest := source } State.start 0 :=
    ⟨⟨[], rfl, rfl, rfl⟩, Nat.zero_le _, Nat.zero_le _⟩
  unfold rung
  refine .next (skipBlanks_apply l _) (.next (peek_apply l _) ?_)
  have stands := begins.pastBlanks fun b hb => step_series_blank _ hb
  generalize Cursor.pastBlanks { rest := source } = d at stands
  -- A text of blanks is its own error, though the automaton has not moved.
  cases head : d.rest.head? with
  | none =>
    show Meets source l (RungRule.fail .emptyInput >>= fun _ : Unit => _) d _
    refine .bind (P := fun _ _ => False) (.fail ?_) nofun
    exact .ended _ (stands.run head) nofun (.inr (.inl ⟨.inl rfl, rfl⟩))
  | some a =>
    refine .next (limits_apply l d) (.bind (series_meets stands (Nat.zero_le _)
      (Nat.le_add_right _ _)) ?_)
    rintro es c₁ ⟨spare, last⟩
    have rest := last.pastBlanks fun b hb => if_pos hb
    refine .next (skipBlanks_apply l c₁) (.next (peek_apply l _) ?_)
    cases more : c₁.pastBlanks.rest.head? with
    | none => exact .pure (rest.run more)
    | some b =>
      show Meets source l (RungRule.failUnexpected >>= fun _ : Unit => _) _ _
      refine .bind (P := fun _ _ => False) (.failUnexpected rest more ?_) nofun
      exact if_neg (Bool.eq_false_iff.1 (c₁.pastBlanks_head b more))

end RungRule

end Plc.Ladder

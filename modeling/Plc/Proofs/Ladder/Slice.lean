/-
What the instructions of a rung own of its text.

Whether an instruction can be read, and as what, is decided by the characters from its name to its
closing parenthesis alone.  So each instruction of a rung stands in a stretch of the text of its own,
and with a semicolon after it that stretch is a rung.

* `operand_local`, `operands_local`, `instruction_local` — rules that do not look beyond what they pass;
* `instruction_alone` — the stretch of an instruction is a rung;
* `Tidy` — some elements between two places of a text, with `Tidy.append` and `Tidy.group`;
* `elementWithin_tidy`, `series_tidy` — the rules, each from those below it;
* `readRung_owned` — whole rungs.
-/
import Plc.Proofs.Ladder.Reread

namespace Plc.Ladder

open Text

/-! ### How a cursor moves -/

namespace Cursor

/-- From one cursor to another, just these characters are passed over. -/
structure Crosses (c c' : Cursor) (cs : List Char) : Prop where
  rest : c.rest = cs ++ c'.rest
  position : c'.position = c.position + cs.length

variable {c c' c₁ d : Cursor} {cs ds rest : List Char} {a : Char}

theorem Crosses.trans (h : c.Crosses c₁ cs) (h' : c₁.Crosses c' ds) : c.Crosses c' (cs ++ ds) where
  rest := by rw [h.rest, h'.rest, List.append_assoc]
  position := by rw [h'.position, h.position, List.length_append, Nat.add_assoc]

/-- What is left is known when what is passed over is known. -/
theorem Crosses.rest_eq (h : c.Crosses c' cs) (parts : c.rest = cs ++ rest) : c'.rest = rest :=
  List.append_cancel_left (h.rest.symm.trans parts)

theorem past_past (c : Cursor) (m n : Nat) : (c.past m).past n = c.past (m + n) := by
  unfold past
  rw [List.drop_drop, Nat.add_assoc]

theorem rest_past (parts : c.rest = cs ++ rest) : (c.past cs.length).rest = rest := by
  rw [past_rest, parts, List.drop_left]

theorem crosses_past (parts : c.rest = cs ++ rest) : c.Crosses (c.past cs.length) cs where
  rest := by rw [rest_past parts, parts]
  position := rfl

theorem crosses_past_one (head : c.rest.head? = some a) : c.Crosses (c.past 1) [a] := by
  have parts : c.rest = [a] ++ (c.past 1).rest := rest_eq_cons head
  exact crosses_past parts

/-- Counting a pass passes over nothing. -/
theorem Crosses.of_counted (h : c.counted.Crosses c' cs) : c.Crosses c' cs :=
  ⟨h.rest, h.position⟩

theorem crosses_pastBlanks (c : Cursor) : c.Crosses c.pastBlanks (c.rest.takeWhile isBlank) :=
  crosses_past (List.takeWhile_append_dropWhile (p := isBlank) (l := c.rest)).symm

theorem crosses_pastName (c : Cursor) : c.Crosses c.pastName (c.rest.takeWhile isNameChar) :=
  crosses_past (List.takeWhile_append_dropWhile (p := isNameChar) (l := c.rest)).symm

/-- The blanks before a character that is none are passed over. -/
theorem pastBlanks_eq (parts : d.rest = c.rest.takeWhile isBlank ++ rest)
    (first : ∀ a ∈ rest.head?, isBlank a = false) :
    d.pastBlanks = d.past (c.rest.takeWhile isBlank).length := by
  have all : ∀ a ∈ c.rest.takeWhile isBlank, isBlank a = true := fun a ha => List.mem_takeWhile_imp ha
  have none_ : rest.takeWhile isBlank = [] := by
    cases rest with
    | nil => rfl
    | cons b bs => exact List.takeWhile_cons_of_neg (Bool.eq_false_iff.1 (first b rfl))
  rw [pastBlanks, parts, List.takeWhile_append_of_pos all, none_, List.append_nil]

end Cursor

namespace RungRule

variable {l : Limits} {c c' : Cursor}

/-! ### Instructions -/

/-- An operand is decided by the characters that are passed over, if what ends it comes after them. -/
theorem operand_local {x : Operand} {e : Char} {more : List Char} (h : operand l c = .ok x c')
    (next : c'.rest = e :: more) (ends : Inside.ends e = true) :
    ∃ cs, c.Crosses c' cs ∧ ∀ d tail, d.rest = cs ++ e :: tail →
      operand l d = .ok x (d.past cs.length) := by
  have blank : isBlank e = false := by
    simp only [Inside.ends, Operand.closes, Bool.or_eq_true, beq_iff_eq] at ends
    rcases ends with rfl | rfl | rfl <;> rfl
  -- An open place and the blanks behind it; or a text up to the character that ends it.
  rcases operand_eq_ok_iff.1 h with ⟨inferred, rfl, rfl⟩ | ⟨other, n, size, some, short, rfl, rfl⟩
  · refine ⟨_, (c.crosses_pastBlanks.trans (Cursor.crosses_past_one inferred)).trans
      (Cursor.crosses_pastBlanks _), fun d tail parts => ?_⟩
    rw [List.append_assoc, List.append_assoc] at parts
    have first := Cursor.pastBlanks_eq parts (by rintro _ ⟨⟩; rfl)
    have after := Cursor.rest_past parts
    have mark : (d.pastBlanks.past 1).rest =
        (c.pastBlanks.past 1).rest.takeWhile isBlank ++ e :: tail := by
      rw [Cursor.past_rest, first, after]
      rfl
    have second := Cursor.pastBlanks_eq mark (by rintro _ ⟨⟩; exact blank)
    refine operand_eq_ok_iff.2 (.inl ⟨by rw [first, after]; rfl, rfl, ?_⟩)
    rw [second, first, Cursor.past_past, Cursor.past_past, List.length_append, List.length_append,
      Nat.add_assoc]
    rfl
  · obtain ⟨text, rest, i, parts, rfl, steps, stop⟩ := operandLength_ok size
    have crossed := Cursor.crosses_past parts
    obtain rfl : rest = e :: more := (Cursor.rest_past parts).symm.trans next
    -- More follows, so the operand did not end with the text, and nothing is open in it.
    obtain rfl : i = Inside.closed := by
      rcases stop with ⟨⟨⟩, -⟩ | ⟨closed, -⟩
      exact closed
    rw [parts, List.take_left] at some short ⊢
    have nonempty : text ≠ [] := by
      rintro rfl
      exact some rfl
    obtain ⟨a, as, rfl⟩ := List.exists_cons_of_ne_nil nonempty
    have begins : isBlank a = false := c.pastBlanks_head a (by rw [parts]; rfl)
    refine ⟨_, c.crosses_pastBlanks.trans crossed, fun d tail same => ?_⟩
    rw [List.append_assoc] at same
    have first := Cursor.pastBlanks_eq same (by rintro _ ⟨⟩; exact begins)
    have after := Cursor.rest_past same
    rw [operand_eq_ok_iff, first, after]
    refine .inr ⟨fun mark => other ?_, _, operandLength_of_steps steps ends, ?_⟩
    · rw [parts]
      exact mark
    · rw [List.take_left, Cursor.past_past, ← List.length_append]
      exact ⟨some, short, rfl, rfl⟩

/-- A rule passes over some characters and is decided by them: with no more passes behind it, it gives
the same wherever they come, and whatever the place of the opening parenthesis. -/
def Local {α : Type} (l : Limits) (r : (opening : Nat) → RungRule α) : Prop :=
  ∀ ⦃opening c a c'⦄, r opening l c = .ok a c' →
    ∃ cs, cs ≠ [] ∧ c.Crosses c' cs ∧ c'.usage = c.usage ∧ c.passes ≤ c'.passes ∧
      ∀ opening' d tail, d.rest = cs ++ tail → d.passes ≤ c.passes →
        ∃ d', r opening' l d = .ok a d' ∧ d.Crosses d' cs ∧ d'.usage = d.usage ∧
          d'.passes + c.passes = c'.passes + d.passes

/-- The operands of an instruction. -/
theorem operands_local (left size : Nat) : Local l fun opening => operands opening left size := by
  -- Induction on the passes that are left. Of the later text only the character behind an operand
  -- matters, which is the comma or the parenthesis that was passed over.
  induction left generalizing size with
  | zero =>
    intro opening c xs c' h
    cases h
  | succ left ih =>
    intro opening c xs c' h
    obtain ⟨within, x, c₁, one, few, next⟩ := operands_eq_ok_iff.1 h
    obtain ⟨passes, usage, -⟩ := operand_ok one
    rw [Cursor.counted_passes] at passes
    rcases next with ⟨ys, comma, others, rfl⟩ | ⟨paren, rfl, rfl⟩
    · obtain ⟨cs, crossed, again⟩ := operand_local one (Cursor.rest_eq_cons comma) rfl
      obtain ⟨ds, -, crossed', usage', le, again'⟩ := ih (size + 1) others
      rw [Cursor.past_passes] at le again'
      refine ⟨cs ++ [','] ++ ds, by simp,
        ((crossed.trans (Cursor.crosses_past_one comma)).trans crossed').of_counted, usage'.trans usage,
        by omega, ?_⟩
      -- The same steps elsewhere, where the passes are counted from a lower number.
      intro opening' d tail parts fewer
      rw [List.append_assoc, List.append_assoc] at parts
      have first := again d.counted _ parts
      have after := Cursor.rest_past (c := d.counted) parts
      have head : (d.counted.past cs.length).rest.head? = some ',' := by rw [after]; rfl
      obtain ⟨d', run, crossed'', usage'', count⟩ := again' opening'
        ((d.counted.past cs.length).past 1) tail
        (by rw [Cursor.past_rest, after]; rfl) (by show d.passes + 1 ≤ _; omega)
      refine ⟨d', operands_eq_ok_iff.2 ⟨by omega, x, _, first, few, .inl ⟨ys, head, run, rfl⟩⟩,
        ?_, usage'', ?_⟩
      · exact (((Cursor.crosses_past (c := d.counted) parts).trans (Cursor.crosses_past_one head)).trans
          crossed'').of_counted
      · have same : d'.passes + c₁.passes = c'.passes + (d.passes + 1) := count
        omega
    · obtain ⟨cs, crossed, again⟩ := operand_local one (Cursor.rest_eq_cons paren) rfl
      refine ⟨cs ++ [')'], by simp, (crossed.trans (Cursor.crosses_past_one paren)).of_counted, usage,
        by show c.passes ≤ c₁.passes; omega, ?_⟩
      intro opening' d tail parts fewer
      rw [List.append_assoc] at parts
      have first := again d.counted _ parts
      have after := Cursor.rest_past (c := d.counted) parts
      have head : (d.counted.past cs.length).rest.head? = some ')' := by rw [after]; rfl
      refine ⟨_, operands_eq_ok_iff.2 ⟨by omega, x, _, first, few, .inr ⟨head, rfl, rfl⟩⟩, ?_, rfl, ?_⟩
      · exact ((Cursor.crosses_past (c := d.counted) parts).trans (Cursor.crosses_past_one head)).of_counted
      · show d.passes + 1 + c.passes = c₁.passes + d.passes
        omega

/-- What stands between the parentheses of an instruction. -/
theorem arguments_local : Local l arguments := by
  intro opening c xs c' h
  rcases arguments_eq_ok_iff.1 h with ⟨paren, rfl, rfl⟩ | ⟨other, others⟩
  · refine ⟨[')'], nofun, Cursor.crosses_past_one paren, rfl, Nat.le_refl _,
      fun opening' d tail parts fewer => ?_⟩
    have head : d.rest.head? = some ')' := by rw [parts]; rfl
    exact ⟨d.past 1, arguments_eq_ok_iff.2 (.inl ⟨head, rfl, rfl⟩), Cursor.crosses_past_one head, rfl,
      Nat.add_comm _ _⟩
  · obtain ⟨cs, nonempty, crossed, usage, le, again⟩ := operands_local _ _ others
    refine ⟨cs, nonempty, crossed, usage, le, fun opening' d tail parts fewer => ?_⟩
    obtain ⟨d', run, rest⟩ := again opening' d tail parts fewer
    have same : d.rest.head? = c.rest.head? := by
      rw [parts, crossed.rest, List.head?_append_of_ne_nil _ nonempty,
        List.head?_append_of_ne_nil _ nonempty]
    exact ⟨d', arguments_eq_ok_iff.2 (.inr ⟨same ▸ other, run⟩), rest⟩

/-- An instruction stands from its name to its closing parenthesis and is decided by the characters
there. -/
theorem instruction_local {e : Element} (h : instruction l c = .ok e c') :
    ∃ i cs, e = .instruction i ∧ i.span.start = c.position ∧ i.span.stop = c'.position ∧ cs ≠ [] ∧
      c.Crosses c' cs ∧ c.passes ≤ c'.passes ∧
      ∀ d tail, d.rest = cs ++ tail → d.passes ≤ c.passes → d.usage.nodes ≤ c.usage.nodes →
        ∃ span d', instruction l d = .ok (.instruction { i with span := span }) d' ∧
          span.start = d.position ∧ span.stop = d'.position ∧ d.Crosses d' cs ∧
          d'.passes + c.passes = c'.passes + d.passes := by
  obtain ⟨paren, xs, c₁, span, args, counted, rfl⟩ := instruction_eq_ok_iff.1 h
  obtain ⟨rfl, few, rfl⟩ := element_eq_ok_iff.1 counted
  obtain ⟨cs, nonempty, crossed, usage, le, again⟩ := arguments_local args
  have whole := ((c.crosses_pastName.trans (Cursor.crosses_past_one paren)).trans
    (Cursor.crosses_pastBlanks _)).trans crossed
  have forward : c.position ≤ c₁.position := by
    rw [whole.position]
    exact Nat.le_add_right _ _
  refine ⟨_, _, rfl, rfl, Nat.max_eq_right forward, by simp, ⟨whole.rest, whole.position⟩, le, ?_⟩
  intro d tail parts fewer nodes
  rw [List.append_assoc, List.append_assoc, List.append_assoc] at parts
  -- The name ends at the parenthesis, and the blanks behind it end at the operands.
  have letters : ∀ a ∈ c.rest.takeWhile isNameChar, isNameChar a = true :=
    fun a ha => List.mem_takeWhile_imp ha
  have name : d.rest.takeWhile isNameChar = c.rest.takeWhile isNameChar := by
    rw [parts, List.takeWhile_append_of_pos letters]
    simp [isNameChar, isNameStart, isAsciiDigit]
  have pastName : d.pastName = d.past (c.rest.takeWhile isNameChar).length := by
    rw [Cursor.pastName, name]
  have after := Cursor.rest_past parts
  have head : d.pastName.rest.head? = some '(' := by rw [pastName, after]; rfl
  have inner : (d.pastName.past 1).rest =
      (c.pastName.past 1).rest.takeWhile isBlank ++ (cs ++ tail) := by
    rw [Cursor.past_rest, pastName, after]
    rfl
  -- Something was passed over as operands, so their first character does not depend on the text
  -- behind.
  have first : ∀ a ∈ (cs ++ tail).head?, isBlank a = false := by
    have plain := (c.pastName.past 1).pastBlanks_head
    rw [crossed.rest, List.head?_append_of_ne_nil _ nonempty] at plain
    rwa [List.head?_append_of_ne_nil _ nonempty]
  have blanks := Cursor.pastBlanks_eq inner first
  obtain ⟨d', run, crossed', usage', count⟩ := again d.pastName.position (d.pastName.past 1).pastBlanks
    tail (by rw [blanks, Cursor.rest_past inner]) fewer
  have toName : d.Crosses d.pastName (c.rest.takeWhile isNameChar) := pastName ▸ Cursor.crosses_past parts
  have toArguments : (d.pastName.past 1).Crosses (d.pastName.past 1).pastBlanks _ :=
    blanks ▸ Cursor.crosses_past inner
  have whole' := ((toName.trans (Cursor.crosses_past_one head)).trans toArguments).trans crossed'
  -- the place of the instruction is from where the name begins to where the operands end
  have back : d.position ≤ d'.position := by
    rw [whole'.position]
    exact Nat.le_add_right _ _
  refine ⟨⟨d.position, max d.position d'.position, Nat.le_max_left ..⟩,
    { d' with usage := d'.usage.addNode }, instruction_eq_ok_iff.2 ⟨head, xs, d', _, run,
      element_eq_ok_iff.2 ⟨rfl, ?_, rfl⟩, by rw [name]⟩,
    rfl, Nat.max_eq_right back, ?_, count⟩
  · rw [usage']
    rw [usage] at few
    exact Nat.le_trans (Nat.succ_le_succ nodes) few
  · exact ⟨whole'.rest, whole'.position⟩

/-- An instruction before the last semicolon is a rung. -/
theorem rung_one {d d' : Cursor} {e : Element} {a : Char} (first : d.rest.head? = some a)
    (letter : isNameStart a = true) (run : instruction l d.counted = .ok e d') (last : d'.rest = [';'])
    (fewer : d.passes < d'.passes) (room : d'.passes + 1 ≤ l.maxIterations)
    (few : 1 ≤ l.maxCollectionSize) :
    rung l d = .ok ⟨[e]⟩ (d'.counted.past 1).pastBlanks := by
  obtain ⟨blank, bracket, -, -, semicolon⟩ := plain_of_isNameStart letter
  -- A rung begins with its instruction and its semicolon comes right behind: no blanks are passed
  -- over.
  have noBlanks : d.pastBlanks = d := Cursor.pastBlanks_eq_self (by rw [first]; simpa using blank)
  have noBlanks' : d.counted.pastBlanks = d.counted :=
    Cursor.pastBlanks_eq_self (by rw [Cursor.counted_rest, first]; simpa using blank)
  have semicolon' : d'.counted.pastBlanks = d'.counted := Cursor.pastBlanks_eq_self (by
    rw [Cursor.counted_rest, last]
    rintro _ ⟨⟩
    rfl)
  -- Two passes are made, one for the instruction and one for the semicolon.
  obtain ⟨left, iterations⟩ : ∃ left, l.maxIterations = left + 2 := ⟨l.maxIterations - 2, by omega⟩
  have ends : series (left + 1) 1 l d' = .ok [] (d'.counted.past 1) := by
    refine series_eq_ok_iff.2 ⟨room, .inl ⟨?_, rfl, by rw [semicolon']⟩⟩
    rw [semicolon', Cursor.counted_rest, last]
    rfl
  refine rung_eq_ok_iff.2 ⟨?_, _, d'.counted.past 1, ?_, ?_, rfl, rfl⟩
  · rw [noBlanks, first]
    exact nofun
  · rw [noBlanks, iterations]
    refine series_eq_ok_iff.2 ⟨by omega, .inr ⟨?_, ?_, _, d', _, ?_, few, ends, rfl⟩⟩
    · rw [noBlanks', Cursor.counted_rest, first]
      simpa using semicolon
    · rw [noBlanks', Cursor.counted_rest, first]
      exact nofun
    · rw [noBlanks']
      cases l.maxDepth <;> exact elementOr_eq_ok_iff.2 ⟨a, first, .inr ⟨bracket, letter, run⟩⟩
  · rw [Cursor.pastBlanks_rest, Cursor.past_rest, Cursor.counted_rest, last]
    rfl

/-- An instruction before a semicolon is a rung, if there was room for one more pass after it. -/
theorem instruction_alone {e : Element} {a : Char} (h : instruction l c = .ok e c')
    (head : c.rest.head? = some a) (letter : isNameStart a = true) (behind : 1 ≤ c.passes) :
    ∃ i cs, e = .instruction i ∧ i.span.start = c.position ∧ i.span.stop = c'.position ∧
      c.position < c'.position ∧ c.Crosses c' cs ∧ c.passes ≤ c'.passes ∧
      (c'.passes + 1 ≤ l.maxIterations → 1 ≤ l.maxCollectionSize → ∃ d,
        rung l { rest := cs ++ [';'] } = .ok ⟨[.instruction { i with
          span := ⟨0, i.span.length, Nat.zero_le _⟩ }]⟩ d) := by
  obtain ⟨i, cs, rfl, start, stop, nonempty, crossed, le, again⟩ := instruction_local h
  have forward : c.position < c'.position := by
    have := List.length_pos_of_ne_nil nonempty
    rw [crossed.position]
    omega
  refine ⟨i, cs, rfl, start, stop, forward, crossed, le, fun room few => ?_⟩
  let d : Cursor := { rest := cs ++ [';'] }
  have first : d.rest.head? = some a := by
    rw [crossed.rest, List.head?_append_of_ne_nil _ nonempty] at head
    exact (List.head?_append_of_ne_nil _ nonempty).trans head
  -- Alone it is read with one pass counted, so not later than behind other elements.
  obtain ⟨span, d', run, start', stop', crossed', count⟩ :=
    again d.counted [';'] rfl behind (Nat.zero_le _)
  have length : d'.position = i.span.length := by
    have zero : d.counted.position = 0 := rfl
    rw [crossed'.position, Span.length, start, stop, crossed.position]
    omega
  obtain rfl : span = ⟨0, i.span.length, Nat.zero_le _⟩ := by
    cases span
    exact (Span.mk.injEq ..).mpr ⟨start', stop'.trans length⟩
  have passes : d'.passes + c.passes = c'.passes + 1 := count
  have fewer : d.passes < d'.passes := by
    show 0 < d'.passes
    omega
  exact ⟨_, rung_one first letter run (crossed'.rest_eq rfl) fewer (by omega) few⟩

end RungRule

/-! ### Elements between two places -/

/-- The place of an element. -/
def Element.span : Element → Span
  | .instruction i => i.span
  | .parallel s _ => s

namespace Element

theorem allInSeries_append (es fs : List Element) :
    allInSeries (es ++ fs) = allInSeries es ++ allInSeries fs := by
  rw [allInSeries_eq, allInSeries_eq, allInSeries_eq, List.flatMap_append]

theorem allInSeries_singleton (e : Element) : allInSeries [e] = e.all :=
  List.append_nil _

theorem seriesInstructions_singleton (e : Element) : seriesInstructions [e] = e.instructions :=
  List.append_nil _

/-- The instructions are those among all elements. -/
theorem seriesInstructions_eq_flatMap (es : List Element) :
    seriesInstructions es = (allInSeries es).flatMap own := by
  rw [allInSeries_eq, ← anatomy.walk_eq all_eq, anatomy.flatMap_walk instructions_eq,
    seriesInstructions_eq]

theorem mem_seriesInstructions {i : Instruction} {es : List Element} :
    i ∈ seriesInstructions es ↔ .instruction i ∈ allInSeries es := by
  rw [seriesInstructions_eq_flatMap, List.mem_flatMap]
  constructor
  · rintro ⟨e, he, own⟩
    cases e with
    | instruction j =>
      obtain rfl := List.mem_singleton.1 own
      exact he
    | parallel s bs => cases own
  · exact fun h => ⟨_, h, List.mem_singleton.2 rfl⟩

end Element

/-- The stretch of an instruction is a rung of that instruction alone. -/
def Instruction.Owns (text : List Char) (l : Limits) (i : Instruction) : Prop :=
  ∃ c, RungRule.rung l { rest := slice text i.span.start i.span.stop ++ [';'] } =
    .ok ⟨[.instruction { i with span := ⟨0, i.span.length, Nat.zero_le _⟩ }]⟩ c

/-- A group stands between its brackets, all its elements inside of them. -/
structure Enclosed (text : List Char) (s : Span) (bs : List (List Element)) : Prop where
  opening : text[s.start]? = some '['
  closing : text[s.stop - 1]? = some ']'
  inside : ∀ e ∈ Element.allInBranches bs, s.start < e.span.start ∧ e.span.stop < s.stop

/-- Some elements stand one after another between two places of a text: each group encloses its branches
and no other instruction, and each instruction owns its stretch. -/
structure Tidy (text : List Char) (l : Limits) (from_ to_ : Nat) (es : List Element) : Prop where
  le : from_ ≤ to_
  inside : ∀ e ∈ Element.allInSeries es,
    from_ ≤ e.span.start ∧ e.span.start < e.span.stop ∧ e.span.stop ≤ to_
  ordered : (Element.seriesInstructions es).Pairwise fun i j => i.span.stop ≤ j.span.start
  groups : ∀ s bs, .parallel s bs ∈ Element.allInSeries es → Enclosed text s bs ∧
    (Element.seriesInstructions es).filter (fun i => s.contains i.span) = Element.branchInstructions bs
  owned : ∀ i ∈ Element.seriesInstructions es, i.Owns text l

namespace Tidy

variable {text : List Char} {l : Limits} {a b c d : Nat} {es fs : List Element}

theorem nil (h : a ≤ b) : Tidy text l a b [] where
  le := h
  inside := nofun
  ordered := .nil
  groups := nofun
  owned := nofun

theorem mono (h : Tidy text l a b es) (low : c ≤ a) (high : b ≤ d) : Tidy text l c d es where
  le := low.trans (h.le.trans high)
  inside e he := by
    obtain ⟨before, some, after⟩ := h.inside e he
    exact ⟨low.trans before, some, after.trans high⟩
  ordered := h.ordered
  groups := h.groups
  owned := h.owned

theorem inside_instruction (h : Tidy text l a b es) {i : Instruction}
    (hi : i ∈ Element.seriesInstructions es) :
    a ≤ i.span.start ∧ i.span.start < i.span.stop ∧ i.span.stop ≤ b :=
  h.inside _ (Element.mem_seriesInstructions.1 hi)

/-- Elements and further elements behind them. -/
theorem append (h : Tidy text l a b es) (h' : Tidy text l b c fs) : Tidy text l a c (es ++ fs) where
  le := h.le.trans h'.le
  inside e he := by
    rw [Element.allInSeries_append, List.mem_append] at he
    rcases he with he | he
    · exact (h.mono (Nat.le_refl _) h'.le).inside e he
    · exact (h'.mono h.le (Nat.le_refl _)).inside e he
  ordered := by
    rw [Element.seriesInstructions_append, List.pairwise_append]
    exact ⟨h.ordered, h'.ordered, fun i hi j hj =>
      (h.inside_instruction hi).2.2.trans (h'.inside_instruction hj).1⟩
  groups s bs hs := by
    -- a group on one side contains no instruction on the other
    rw [Element.seriesInstructions_append, List.filter_append]
    rw [Element.allInSeries_append, List.mem_append] at hs
    rcases hs with hs | hs
    · obtain ⟨enclosed, own⟩ := h.groups s bs hs
      have high := (h.inside _ hs).2.2
      have none_ : (Element.seriesInstructions fs).filter (fun i => s.contains i.span) = [] := by
        refine List.filter_eq_nil_iff.2 fun i hi covers => ?_
        have := h'.inside_instruction hi
        have := (Span.contains_iff.1 covers).2
        change s.stop ≤ b at high
        omega
      rw [own, none_, List.append_nil]
      exact ⟨enclosed, rfl⟩
    · obtain ⟨enclosed, own⟩ := h'.groups s bs hs
      have low := (h'.inside _ hs).1
      have none_ : (Element.seriesInstructions es).filter (fun i => s.contains i.span) = [] := by
        refine List.filter_eq_nil_iff.2 fun i hi covers => ?_
        have := h.inside_instruction hi
        have := (Span.contains_iff.1 covers).1
        change b ≤ s.start at low
        omega
      rw [own, none_, List.nil_append]
      exact ⟨enclosed, rfl⟩
  owned i hi := by
    rw [Element.seriesInstructions_append, List.mem_append] at hi
    exact hi.elim (h.owned i) (h'.owned i)

/-- An instruction. -/
theorem instruction {i : Instruction} (some : i.span.start < i.span.stop) (own : i.Owns text l) :
    Tidy text l i.span.start i.span.stop [.instruction i] where
  le := some.le
  inside e he := by
    obtain rfl := List.mem_singleton.1 he
    exact ⟨Nat.le_refl _, some, Nat.le_refl _⟩
  ordered := List.pairwise_singleton _ _
  groups s bs hs := by cases List.mem_singleton.1 hs
  owned j hj := by
    obtain rfl := List.mem_singleton.1 hj
    exact own

/-- A group between its brackets. -/
theorem group {s : Span} {bs : List (List Element)} (h : Tidy text l a b bs.flatten)
    (opening : text[s.start]? = some '[') (closing : text[s.stop - 1]? = some ']')
    (low : s.start < a) (high : b < s.stop) : Tidy text l s.start s.stop [.parallel s bs] where
  le := by
    have := h.le
    omega
  inside e he := by
    rw [Element.allInSeries_singleton, Element.all, Element.allInBranches_eq, List.mem_cons] at he
    have := h.le
    rcases he with rfl | he
    · exact ⟨Nat.le_refl _, by show s.start < s.stop; omega, Nat.le_refl _⟩
    · exact (h.mono low.le high.le).inside e he
  ordered := by
    rw [Element.seriesInstructions_singleton, Element.instructions, Element.branchInstructions_eq]
    exact h.ordered
  -- The group itself is new, with its brackets around all that is inside; the others were there
  -- before.
  groups t cs ht := by
    rw [Element.seriesInstructions_singleton, Element.instructions, Element.branchInstructions_eq]
    rw [Element.allInSeries_singleton, Element.all, Element.allInBranches_eq, List.mem_cons] at ht
    rcases ht with same | ht
    · cases same
      refine ⟨⟨opening, closing, fun e he => ?_⟩, ?_⟩
      · rw [Element.allInBranches_eq] at he
        have := h.inside e he
        omega
      · rw [Element.branchInstructions_eq, List.filter_eq_self]
        intro i hi
        have := h.inside_instruction hi
        exact Span.contains_iff.2 ⟨by omega, by omega⟩
    · exact h.groups t cs ht
  owned i hi := by
    rw [Element.seriesInstructions_singleton, Element.instructions, Element.branchInstructions_eq] at hi
    exact h.owned i hi

end Tidy

/-! ### Groups and rungs -/

/-- The cursor stands in the text. -/
structure Cursor.In (text : List Char) (c : Cursor) : Prop where
  le : c.position ≤ text.length
  rest : c.rest = text.drop c.position

namespace Cursor.In

variable {text : List Char} {c c' : Cursor} {cs : List Char} {a : Char}

/-- What is passed over is a stretch of the text. -/
theorem crosses (h : c.In text) (crossed : c.Crosses c' cs) :
    c'.In text ∧ slice text c.position c'.position = cs := by
  have parts : text.drop c.position = cs ++ c'.rest := h.rest.symm.trans crossed.rest
  have length := congrArg List.length parts
  rw [List.length_drop, List.length_append] at length
  refine ⟨⟨?_, ?_⟩, ?_⟩
  · have := h.le
    rw [crossed.position]
    omega
  · rw [crossed.position, ← List.drop_drop, parts, List.drop_left]
  · rw [slice, parts, crossed.position, Nat.add_sub_cancel_left, List.take_left]

theorem counted (h : c.In text) : c.counted.In text := ⟨h.le, h.rest⟩

theorem pastBlanks (h : c.In text) : c.pastBlanks.In text := (h.crosses c.crosses_pastBlanks).1

theorem past_one (h : c.In text) (head : c.rest.head? = some a) : (c.past 1).In text :=
  (h.crosses (crosses_past_one head)).1

/-- The next character stands in the text. -/
theorem getElem? (h : c.In text) (head : c.rest.head? = some a) : text[c.position]? = some a := by
  rw [← head, h.rest, List.head?_drop]

end Cursor.In

namespace RungRule

variable {text : List Char} {l : Limits} {c c' : Cursor} {item : RungRule Element}

/-- What a rule for elements gives stands tidily between the cursors, when a pass is behind it and
there is room for one more. -/
def TidyItem (text : List Char) (l : Limits) (item : RungRule Element) : Prop :=
  ∀ ⦃c e c'⦄, item l c = .ok e c' → c.In text → 1 ≤ c.passes →
    c'.In text ∧ c.passes ≤ c'.passes ∧ (c'.passes + 1 ≤ l.maxIterations →
      1 ≤ l.maxCollectionSize → Tidy text l c.position c'.position [e])

theorem passes_of_branch {opening left size : Nat} {es : List Element}
    (h : branch item opening left size l c = .ok es c') : c.passes + 1 ≤ l.maxIterations := by
  cases left with
  | zero => cases h
  | succ left => exact (branch_eq_ok_iff.1 h).1

theorem passes_of_series {left size : Nat} {es : List Element}
    (h : series left size l c = .ok es c') : c.passes + 1 ≤ l.maxIterations := by
  cases left with
  | zero => cases h
  | succ left => exact (series_eq_ok_iff.1 h).1

theorem position_pastBlanks_le (c : Cursor) : c.position ≤ c.pastBlanks.position :=
  Nat.le_add_right _ _

/-- The elements of a branch. -/
theorem branch_tidy (items : TidyItem text l item) {opening left size : Nat} {es : List Element}
    (h : branch item opening left size l c = .ok es c') (place : c.In text) :
    c'.In text ∧ c.passes + 1 ≤ c'.passes ∧ Tidy text l c.position c'.position es := by
  induction left generalizing size c es with
  | zero => cases h
  | succ left ih =>
    have forward := position_pastBlanks_le c.counted
    obtain ⟨within, ⟨-, -, rfl, rfl⟩ | ⟨-, -, e, c₁, es, one, few, others, rfl⟩⟩ := branch_eq_ok_iff.1 h
    · exact ⟨place.counted.pastBlanks, Nat.le_refl _, .nil forward⟩
    · obtain ⟨place₁, le, first⟩ := items one place.counted.pastBlanks (Nat.le_add_left _ _)
      obtain ⟨place', le', more⟩ := ih others place₁
      have tidy := first (passes_of_branch others) (by omega)
      refine ⟨place', ?_, (tidy.mono forward (Nat.le_refl _)).append more⟩
      rw [Cursor.pastBlanks_passes, Cursor.counted_passes] at le
      omega

/-- The branches of a group after the first, up to the closing bracket. -/
theorem branches_tidy (items : TidyItem text l item) {opening left size : Nat}
    {bs : List (List Element)} (h : branches item opening left size l c = .ok bs c')
    (place : c.In text) :
    c'.In text ∧ c.passes + 1 ≤ c'.passes ∧ text[c'.position - 1]? = some ']' ∧
      ∃ last, last + 1 = c'.position ∧ Tidy text l c.position last bs.flatten := by
  induction left generalizing size c bs with
  | zero => cases h
  | succ left ih =>
    have forward := position_pastBlanks_le c.counted
    have place₁ := place.counted.pastBlanks
    obtain ⟨within, ⟨bracket, rfl, rfl⟩ | ⟨comma, b, c₁, bs, one, few, others, rfl⟩⟩ :=
      branches_eq_ok_iff.1 h
    · exact ⟨place₁.past_one bracket, Nat.le_refl _, place₁.getElem? bracket, _, rfl, .nil forward⟩
    · obtain ⟨place₂, le, first⟩ := branch_tidy items one (place₁.past_one comma)
      obtain ⟨place', le', closing, last, before, more⟩ := ih others place₂
      refine ⟨place', ?_, closing, last, before, ?_⟩
      · rw [Cursor.past_passes, Cursor.pastBlanks_passes, Cursor.counted_passes] at le
        omega
      · rw [List.flatten_cons]
        exact (first.mono (forward.trans (Nat.le_add_right _ _)) (Nat.le_refl _)).append more

/-- A group. -/
theorem parallel_tidy (items : TidyItem text l item) {e : Element} (h : parallel item l c = .ok e c')
    (bracket : c.rest.head? = some '[') (place : c.In text) :
    c'.In text ∧ c.passes ≤ c'.passes ∧ Tidy text l c.position c'.position [e] := by
  obtain ⟨-, b, c₁, bs, c₂, span, one, others, counted, rfl⟩ := parallel_eq_ok_iff.1 h
  obtain ⟨rfl, few, rfl⟩ := element_eq_ok_iff.1 counted
  have inside := place.past_one bracket
  obtain ⟨place₁, le₁, first⟩ := branch_tidy items one ⟨inside.le, inside.rest⟩
  obtain ⟨place₂, le₂, closing, last, before, more⟩ := branches_tidy items others place₁
  have whole : Tidy text l (c.position + 1) last (b :: bs).flatten := first.append more
  have stop : max c.position c₂.position = c₂.position := by
    have := whole.le
    omega
  refine ⟨⟨place₂.le, place₂.rest⟩, ?_, ?_⟩
  · have : c.passes + 1 ≤ c₁.passes := le₁
    show c.passes ≤ c₂.passes
    omega
  · refine (Tidy.group whole (place.getElem? bracket) ?_ (Nat.lt_succ_self _) ?_).mono
      (Nat.le_refl _) stop.le
    · show text[max c.position c₂.position - 1]? = _
      rw [stop]
      exact closing
    · show last < max c.position c₂.position
      omega

/-- Elements in which groups are nested so deep at most. -/
theorem elementWithin_tidy (levels : Nat) : TidyItem text l (elementWithin levels) := by
  -- a rule for groups that is put in the place of the nested one
  have layer (group : RungRule Element) (groups : ∀ ⦃c e c'⦄, group l c = .ok e c' →
      c.rest.head? = some '[' → c.In text →
        c'.In text ∧ c.passes ≤ c'.passes ∧ Tidy text l c.position c'.position [e]) :
      TidyItem text l (elementOr group) := by
    intro c e c' h place behind
    obtain ⟨a, head, ⟨rfl, h⟩ | ⟨other, letter, h⟩⟩ := elementOr_eq_ok_iff.1 h
    · obtain ⟨place', le, tidy⟩ := groups h head place
      exact ⟨place', le, fun _ _ => tidy⟩
    · obtain ⟨i, cs, rfl, start, stop, forward, crossed, le, alone⟩ :=
        instruction_alone h head letter behind
      obtain ⟨place', same⟩ := place.crosses crossed
      refine ⟨place', le, fun room few => ?_⟩
      rw [← start, ← stop] at forward same ⊢
      refine .instruction forward ?_
      rw [Instruction.Owns, same]
      exact alone room few
  induction levels with
  | zero => exact layer _ fun c e c' h => absurd h tooDeep_ne_ok
  | succ below ih => exact layer _ fun c e c' h => parallel_tidy ih h

/-- The elements of a rung up to the semicolon. -/
theorem series_tidy {left size : Nat} {es : List Element} (h : series left size l c = .ok es c')
    (place : c.In text) : ∃ last, text[last]? = some ';' ∧ Tidy text l c.position last es := by
  induction left generalizing size c es with
  | zero => cases h
  | succ left ih =>
    have forward := position_pastBlanks_le c.counted
    have place₁ := place.counted.pastBlanks
    obtain ⟨within, ⟨semicolon, rfl, rfl⟩ | ⟨-, -, e, c₁, es, one, few, others, rfl⟩⟩ :=
      series_eq_ok_iff.1 h
    · exact ⟨_, place₁.getElem? semicolon, .nil forward⟩
    · obtain ⟨place₂, -, first⟩ := elementWithin_tidy l.maxDepth one place₁ (Nat.le_add_left _ _)
      obtain ⟨last, semicolon, more⟩ := ih others place₂
      have tidy := first (passes_of_series others) (by omega)
      exact ⟨last, semicolon, (tidy.mono forward (Nat.le_refl _)).append more⟩

end RungRule

/-! ### Whole rungs -/

/-- A stretch of a text and a character behind it are part of the text. -/
theorem slice_sublist {text : List Char} {a : Char} {stop last : Nat} (start : Nat) (before : stop ≤ last)
    (h : text[last]? = some a) : (slice text start stop ++ [a]).Sublist text := by
  obtain ⟨inside, rfl⟩ := List.getElem?_eq_some_iff.1 h
  have front : (slice text start stop).Sublist (text.take last) := by
    rw [slice, ← List.drop_take]
    exact (List.drop_sublist _ _).trans (List.take_sublist_take_left before)
  have back : [text[last]].Sublist (text.drop last) :=
    List.singleton_sublist.2 (List.drop_eq_getElem_cons inside ▸ List.mem_cons_self)
  have both := front.append back
  rwa [List.take_append_drop] at both

/-- The instructions of a rung are those of its content in the order of the text, each in a stretch of its
own.  A group stands from its opening bracket to its closing one and contains the instructions of its
branches and no others.  With a semicolon behind it, the stretch of an instruction is a rung of that
instruction alone. -/
theorem readRung_owned {text : List Char} {l : Limits} {r : Rung} (h : readRung text l = .ok r) :
    r.instructions = Element.seriesInstructions r.elements ∧
    r.instructions.Pairwise (fun i j => i.span.stop ≤ j.span.start) ∧
    (∀ e ∈ Element.allInSeries r.elements,
      e.span.start < e.span.stop ∧ e.span.stop ≤ text.length) ∧
    (∀ s bs, .parallel s bs ∈ Element.allInSeries r.elements → Enclosed text s bs ∧
      r.instructions.filter (fun i => s.contains i.span) = Element.branchInstructions bs) ∧
    ∀ i ∈ r.instructions, readRung (slice text i.span.start i.span.stop ++ [';']) l =
      .ok ⟨[.instruction { i with span := ⟨0, i.span.length, Nat.zero_le _⟩ }]⟩ := by
  obtain ⟨small, c, run⟩ := readRung_eq_ok_iff.1 h
  obtain ⟨-, es, c₁, all, -, rfl, -⟩ := RungRule.rung_eq_ok_iff.1 run
  have start : Cursor.In text { rest := text } := ⟨Nat.zero_le _, rfl⟩
  obtain ⟨last, semicolon, tidy⟩ := RungRule.series_tidy all start.pastBlanks
  have inside := (List.getElem?_eq_some_iff.1 semicolon).1
  rw [Rung.instructions_eq]
  refine ⟨rfl, tidy.ordered, fun e he => ?_, tidy.groups, fun i hi => ?_⟩
  · obtain ⟨-, some, high⟩ := tidy.inside e he
    exact ⟨some, high.trans inside.le⟩
  · obtain ⟨-, -, high⟩ := tidy.inside_instruction hi
    have part := utf8Size_le_of_sublist (slice_sublist i.span.start high semicolon)
    exact readRung_eq_ok_iff.2 ⟨part.trans small, tidy.owned i hi⟩

/-- A rung with blanks around operands, brackets in a quote, and a group inside a branch of another. -/
def nestedGroups : List Char := " A( x , ? )[ B() , C('),') [D(a[i+1])] ] ;".toList

theorem readRung_owned_nestedGroups : ∃ r, readRung nestedGroups = .ok r ∧
    r.instructions.Pairwise (fun i j => i.span.stop ≤ j.span.start) ∧
    ∀ i ∈ r.instructions, readRung (slice nestedGroups i.span.start i.span.stop ++ [';']) =
      .ok ⟨[.instruction { i with span := ⟨0, i.span.length, Nat.zero_le _⟩ }]⟩ := by
  have accepted : (readRung nestedGroups).toBool = true := by decide +kernel
  cases read : readRung nestedGroups with
  | ok r =>
    obtain ⟨-, ordered, -, -, owned⟩ := readRung_owned read
    exact ⟨r, rfl, ordered, owned⟩
  | error e =>
    rw [read] at accepted
    cases accepted

end Plc.Ladder

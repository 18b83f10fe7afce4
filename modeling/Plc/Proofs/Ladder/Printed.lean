/-
What is written out of a rung.

The text of a rung has no blanks between elements and around operands, and nothing of it depends on
where the elements stood in the text they were read from.

* `Element.bare`, `Rung.bare` — elements and rungs without their places;
* `operandsChars`, `branchesChars` — the characters of what is written out;
* `IsOperandText` — what the text of an operand is;
* `operand_again` — an operand is read again.
-/
import Mathlib.Data.List.DropRight
import Plc.Proofs.Ladder.Inside
import Plc.Proofs.Ladder.Steps

namespace Plc.Ladder

open Text

/-! ### Without places -/

mutual

/-- An element without its places. -/
def Element.bare : Element → Element
  | .instruction i => .instruction { i with span := Span.zero }
  | .parallel _ branches => .parallel Span.zero (Element.bareBranches branches)

/-- A series of elements without their places. -/
def Element.bareSeries : List Element → List Element
  | [] => []
  | e :: es => e.bare :: Element.bareSeries es

/-- The branches of a group without their places. -/
def Element.bareBranches : List (List Element) → List (List Element)
  | [] => []
  | b :: bs => Element.bareSeries b :: Element.bareBranches bs

end

/-- A rung without its places. -/
def Rung.bare (r : Rung) : Rung := ⟨Element.bareSeries r.elements⟩

mutual

/-- The text of an element has nothing to do with its places. -/
theorem Element.text_bare : ∀ e : Element, e.bare.text = e.text
  | .instruction _ => rfl
  | .parallel _ branches => by
    rw [Element.bare, Element.text, Element.text, Element.branchTexts_bare branches]

theorem Element.seriesText_bare : ∀ es : List Element,
    Element.seriesText (Element.bareSeries es) = Element.seriesText es
  | [] => rfl
  | e :: es => by
    rw [Element.bareSeries, Element.seriesText, Element.seriesText, e.text_bare,
      Element.seriesText_bare es]

theorem Element.branchTexts_bare : ∀ bs : List (List Element),
    Element.branchTexts (Element.bareBranches bs) = Element.branchTexts bs
  | [] => rfl
  | b :: bs => by
    rw [Element.bareBranches, Element.branchTexts, Element.branchTexts, Element.seriesText_bare b,
      Element.branchTexts_bare bs]

end

theorem Rung.text_bare (r : Rung) : r.bare.text = r.text :=
  congrArg (· ++ ";") (Element.seriesText_bare r.elements)

/-! ### The characters of a text -/

theorem toList_commas (t : String) (ts : List String) :
    (",".intercalate (t :: ts)).toList = t.toList ++ ts.flatMap fun u => ',' :: u.toList := by
  induction ts generalizing t with
  | nil =>
    rw [String.intercalate_singleton, List.flatMap_nil, List.append_nil]
  | cons u ts ih =>
    rw [String.intercalate_cons_cons, String.toList_append, String.toList_append, ih u,
      List.append_assoc]
    rfl

/-- The characters of the operands of an instruction, up to the closing parenthesis. -/
def operandsChars : List Operand → List Char
  | [] => [')']
  | [x] => x.text.toList ++ [')']
  | x :: xs => x.text.toList ++ ',' :: operandsChars xs

theorem operandsChars_eq (xs : List Operand) :
    operandsChars xs = (",".intercalate (xs.map Operand.text)).toList ++ [')'] := by
  induction xs with
  | nil => rfl
  | cons x xs ih =>
    cases xs with
    | nil => rw [List.map_singleton, String.intercalate_singleton]; rfl
    | cons y ys =>
      rw [operandsChars, ih, List.map_cons, List.map_cons, toList_commas, toList_commas]
      simp
      exact nofun

/-- The characters of the branches of a group after the first, up to the closing bracket. -/
def branchesChars (bs : List (List Element)) : List Char :=
  (bs.flatMap fun b => ',' :: (Element.seriesText b).toList) ++ [']']

theorem Element.branchTexts_eq (bs : List (List Element)) :
    Element.branchTexts bs = bs.map Element.seriesText := by
  induction bs with
  | nil => rfl
  | cons b bs ih => rw [Element.branchTexts, ih, List.map_cons]

theorem Element.toList_parallel (s : Span) (b : List Element) (bs : List (List Element)) :
    (Element.parallel s (b :: bs)).text.toList =
      '[' :: ((Element.seriesText b).toList ++ branchesChars bs) := by
  rw [Element.text, Element.branchTexts_eq, List.map_cons, String.toList_append,
    String.toList_append, toList_commas, branchesChars, List.flatMap_map, List.append_assoc,
    List.append_assoc]
  rfl

theorem Instruction.toList_text (i : Instruction) :
    i.text.toList = i.mnemonic.toList ++ '(' :: operandsChars i.operands := by
  rw [Instruction.text, String.toList_append, String.toList_append, String.toList_append,
    operandsChars_eq, List.append_assoc, List.append_assoc]
  rfl

/-! ### Operands -/

theorem trimEnd_trimEnd (cs : List Char) : trimEnd (trimEnd cs) = trimEnd cs := by
  unfold trimEnd
  rw [List.reverse_reverse]
  congr 1
  exact List.dropWhile_idempotent _ _

/-- A text whose blanks at the end are left out is no less closed. -/
theorem steps_trimEnd {text : List Char} (h : Inside.closed.steps text = some Inside.closed) :
    Inside.closed.steps (trimEnd text) = some Inside.closed := by
  obtain ⟨blanks, parts, all⟩ := trimEnd_append_blanks text
  rw [parts, Inside.steps_append] at h
  obtain ⟨j, first, rest⟩ := Option.bind_eq_some_iff.1 h
  rw [(Inside.proper_closed.steps first).steps_blank all] at rest
  rw [first, rest]

/-- The text of an operand that is not `?`: it has no blank at either end, and everything that is
opened in it is closed. -/
structure IsOperandText (text : List Char) : Prop where
  first : ∃ c more, text = c :: more ∧ isBlank c = false ∧ c ≠ '?'
  trimmed : trimEnd text = text
  closed : Inside.closed.steps text = some Inside.closed

namespace IsOperandText

variable {text : List Char}

/-- Where no blank comes first and nothing is left open, the blanks at the end may go. -/
theorem of_closed {c : Char} {more : List Char} (blank : isBlank c = false) (plain : c ≠ '?')
    (closed : Inside.closed.steps (c :: more) = some Inside.closed) :
    IsOperandText (trim (c :: more)) := by
  have some : trim (c :: more) ≠ [] := trim_ne_nil blank
  have start : trimStart (c :: more) = c :: more :=
    trimStart_eq_self_iff.2 (by simpa using blank)
  obtain ⟨blanks, parts, -⟩ := trimEnd_append_blanks (c :: more)
  rw [trim, start] at some ⊢
  refine ⟨?_, trimEnd_trimEnd _, steps_trimEnd closed⟩
  obtain ⟨a, as, kept⟩ := List.exists_cons_of_ne_nil some
  rw [kept] at parts
  cases parts
  exact ⟨c, as, kept, blank, plain⟩

theorem trim_eq (h : IsOperandText text) : trim text = text := by
  obtain ⟨c, more, rfl, blank, -⟩ := h.first
  rw [trim, trimStart_eq_self_iff.2 (by simpa using blank)]
  exact h.trimmed

/-- An operand does not begin with a comma or a closing bracket. -/
theorem first_goes (h : IsOperandText text) : ∃ c more, text = c :: more ∧ isBlank c = false ∧
    c ≠ '?' ∧ Inside.ends c = false := by
  obtain ⟨c, more, rfl, blank, inferred⟩ := h.first
  refine ⟨c, more, rfl, blank, inferred, Bool.eq_false_iff.2 fun ends => ?_⟩
  have closed := h.closed
  rw [Inside.steps_cons, Inside.step_closed ends] at closed
  cases closed

end IsOperandText

namespace RungRule

variable {l : Limits} {c c' d : Cursor}

/-- What an operand that is read stands for, and what is left after it. -/
theorem operand_ok {x : Operand} (h : operand l c = .ok x c') :
    c'.passes = c.passes ∧ c'.usage = c.usage ∧
      ((x = none ∧ ∃ rest, c.rest.dropWhile isBlank = '?' :: rest ∧
          c'.rest = rest.dropWhile isBlank) ∨
        ∃ n p, operandLength none [] p (c.rest.dropWhile isBlank) = .ok n ∧
          (c.rest.dropWhile isBlank).head? ≠ some '?' ∧
          x = some (String.ofList (trim ((c.rest.dropWhile isBlank).take n))) ∧
          trim ((c.rest.dropWhile isBlank).take n) ≠ [] ∧
          (trim ((c.rest.dropWhile isBlank).take n)).length ≤ l.maxStringLength ∧
          c'.rest = (c.rest.dropWhile isBlank).drop n) := by
  rw [← Cursor.pastBlanks_rest]
  rcases operand_eq_ok_iff.1 h with ⟨inferred, rfl, rfl⟩ | ⟨other, n, size, some, short, rfl, rfl⟩
  · exact ⟨rfl, rfl, .inl ⟨rfl, _, Cursor.rest_eq_cons inferred, Cursor.pastBlanks_rest _⟩⟩
  · exact ⟨rfl, rfl, .inr ⟨n, _, size, other, rfl, some, short, rfl⟩⟩

/-- An operand that something follows is `?` or a text of which everything is closed, and the
characters passed over contain it. -/
theorem operand_sound {x : Operand} (h : operand l c = .ok x c') (more : c'.rest ≠ []) :
    (x = none ∨ ∃ text, x = some (String.ofList text) ∧ IsOperandText text ∧
      text.length ≤ l.maxStringLength) ∧
    (∃ passed, c.rest = passed ++ c'.rest ∧ x.text.toList.Sublist passed) := by
  have front := List.takeWhile_append_dropWhile (p := isBlank) (l := c.rest)
  obtain ⟨-, -, ⟨rfl, rest, parts, after⟩ | ⟨n, p, size, plain, rfl, some, short, after⟩⟩ := operand_ok h
  · have back := List.takeWhile_append_dropWhile (p := isBlank) (l := rest)
    refine ⟨.inl rfl, c.rest.takeWhile isBlank ++ '?' :: rest.takeWhile isBlank, ?_, ?_⟩
    · rw [after, List.append_assoc, List.cons_append, back, ← parts, front]
    · exact List.sublist_append_of_sublist_right (List.singleton_sublist.2 List.mem_cons_self)
  · obtain ⟨text, rest, i, parts, rfl, steps, stop⟩ := operandLength_ok size
    rw [parts, List.take_left] at some short ⊢
    rw [parts, List.drop_left] at after
    subst after
    -- something follows, so the operand did not end with the text
    have closed : i = Inside.closed := by
      rcases stop with ⟨none_, -⟩ | ⟨closed, -⟩
      · exact absurd none_ more
      · exact closed
    subst closed
    cases text with
    | nil => cases some rfl
    | cons a as =>
      have whole : IsOperandText (trim (a :: as)) := by
        refine .of_closed (false_of_mem_dropWhile _ (congrArg List.head? parts)) (fun same => ?_) steps
        subst same
        exact plain (by rw [parts]; rfl)
      refine ⟨.inr ⟨_, rfl, whole, short⟩, c.rest.takeWhile isBlank ++ a :: as, ?_, ?_⟩
      · rw [List.append_assoc, ← parts, front]
      · refine List.sublist_append_of_sublist_right ?_
        rw [Operand.text, Option.getD_some, String.toList_ofList]
        exact trim_sublist _

/-- An operand that is written out is read again, before a comma or a closing bracket. -/
theorem operand_reads {text rest : List Char} {e : Char} (h : IsOperandText text)
    (short : text.length ≤ l.maxStringLength) (ends : Inside.ends e = true)
    (hd : d.rest = text ++ e :: rest) :
    operand l d = .ok (some (String.ofList text)) (d.past text.length) := by
  obtain ⟨c, more, rfl, blank, plain⟩ := h.first
  have size : operandLength none [] d.position d.rest = .ok (c :: more).length := by
    rw [hd]
    exact operandLength_of_steps (show (insideOf none []).steps _ = _ from h.closed) ends
  have head : d.rest.head? = some c := by rw [hd]; rfl
  rw [operand_eq_ok_iff, Cursor.pastBlanks_eq_self (by simpa [head] using blank)]
  refine .inr ⟨by simpa [head] using plain, _, size, ?_⟩
  rw [hd, List.take_left, h.trim_eq]
  exact ⟨List.cons_ne_nil _ _, short, rfl, rfl⟩

/-- An operand that is to be found out is read again. -/
theorem operand_reads_inferred {rest : List Char} {e : Char} (ends : Inside.ends e = true)
    (hd : d.rest = '?' :: e :: rest) : operand l d = .ok none (d.past 1) := by
  have blank : isBlank e = false := by
    simp only [Inside.ends, Operand.closes, Bool.or_eq_true, beq_iff_eq] at ends
    rcases ends with rfl | rfl | rfl <;> rfl
  have head : d.rest.head? = some '?' := by rw [hd]; rfl
  have next : (d.past 1).rest.head? = some e := by rw [Cursor.past_rest, hd]; rfl
  rw [operand_eq_ok_iff, Cursor.pastBlanks_eq_self (by simp [head]; rfl)]
  refine .inl ⟨head, rfl, ?_⟩
  rw [Cursor.pastBlanks_eq_self (by rw [next]; simpa using blank)]

/-- An operand that was read is read again from its own text, before a comma or a closing
bracket. -/
theorem operand_again {x : Operand} {rest : List Char} {e : Char} (h : operand l c = .ok x c')
    (more : c'.rest ≠ []) (ends : Inside.ends e = true) (hd : d.rest = x.text.toList ++ e :: rest) :
    operand l d = .ok x (d.past x.text.toList.length) := by
  obtain ⟨rfl | ⟨text, rfl, whole, short⟩, -⟩ := operand_sound h more
  · exact operand_reads_inferred ends hd
  · rw [Operand.text, Option.getD_some, String.toList_ofList] at hd ⊢
    exact operand_reads whole short ends hd

/-- The text of an operand that was read begins with a character that neither is a blank nor ends
an operand. -/
theorem operand_begins {x : Operand} (h : operand l c = .ok x c') (more : c'.rest ≠ []) :
    ∃ a as, x.text.toList = a :: as ∧ isBlank a = false ∧ Inside.ends a = false := by
  obtain ⟨rfl | ⟨text, rfl, whole, -⟩, -⟩ := operand_sound h more
  · exact ⟨'?', [], rfl, rfl, rfl⟩
  · obtain ⟨a, as, rfl, blank, -, ends⟩ := whole.first_goes
    exact ⟨a, as, String.toList_ofList, blank, ends⟩

end RungRule

end Plc.Ladder

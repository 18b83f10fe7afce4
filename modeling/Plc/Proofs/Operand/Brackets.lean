/-
Texts in which brackets match.

A text is looked at with the number of brackets open before it.  A part in which every parenthesis
is closed leaves that number as it was, and nothing inside of a bracket is seen from outside.

* `Nested` — parentheses match, and there are no other brackets;
* `Nested.leveled_inside`, `Nested.leveled_append` — what stands outside of all brackets;
* `Nested.isBalanced_append`, `Nested.closesAtEnd_append` — counting over such a part;
* `IsUndivided` — a text that no operator or blank divides;
* `IsUndivided.termsOf_eq`, `IsUndivided.looksLikeExpression_eq` — it is one term;
* `IsTerm`, `IsTerm.continues_append` — such a text with plain characters outside of its parentheses.
-/
import Mathlib.Data.List.Basic
import Plc.Ladder.Operand
import Plc.Proofs.Token.Follow

namespace Plc.Ladder.Operand

open Text

/-! ### Plain characters -/

/-- A character that a name with its accesses, or a number, is made of. -/
def isPlain (c : Char) : Bool :=
  isNameChar c || c == '.' || c == '#'

theorem isPlain_of_isNameChar {c : Char} (h : isNameChar c = true) : isPlain c = true := by
  rw [isPlain, h]
  rfl

/-- A plain character divides nothing. -/
structure Plain (c : Char) : Prop where
  opens : opens c = false
  closes : closes c = false
  operator : isOperator c = false
  minus : (c == '-') = false
  comma : (c == ',') = false
  blank : isBlank c = false

theorem isBlank_of_isPlain {c : Char} (h : isPlain c = true) : isBlank c = false := by
  rw [Bool.eq_false_iff]
  intro blank
  have others : blanks.all (fun b => !isPlain b) = true := by decide
  have other := List.all_eq_true.1 others c (mem_blanks blank)
  rw [h] at other
  cases other

theorem plain_of_isPlain {c : Char} (h : isPlain c = true) : Plain c := by
  have ne {d : Char} (other : isPlain d = false) : (c == d) = false := by
    rw [beq_eq_false_iff_ne]
    rintro rfl
    rw [h] at other
    cases other
  refine ⟨?_, ?_, ?_, ne rfl, ne rfl, isBlank_of_isPlain h⟩
  · rw [opens, ne rfl, ne rfl]
    rfl
  · rw [closes, ne rfl, ne rfl]
    rfl
  · rw [isOperator, ne rfl, ne rfl, ne rfl, ne rfl, ne rfl, ne rfl]
    rfl

/-! ### Matching parentheses -/

/-- Every parenthesis is closed, and there are no other brackets. -/
inductive Nested : List Char → Prop
  | nil : Nested []
  | other {c : Char} {cs : List Char} : opens c = false → closes c = false → Nested cs →
      Nested (c :: cs)
  | group {cs ds : List Char} : Nested cs → Nested ds → Nested ('(' :: (cs ++ ')' :: ds))

namespace Nested

variable {cs ds : List Char}

theorem append (hc : Nested cs) (hd : Nested ds) : Nested (cs ++ ds) := by
  induction hc with
  | nil => exact hd
  | other o c _ ih => exact .other o c ih
  | group inner _ _ ih =>
    rw [List.cons_append, List.append_assoc, List.cons_append]
    exact .group inner ih

theorem of_plain (h : ∀ c ∈ cs, isPlain c = true) : Nested cs := by
  induction cs with
  | nil => exact .nil
  | cons c cs ih =>
    have plain := plain_of_isPlain (h c List.mem_cons_self)
    exact .other plain.opens plain.closes (ih fun d hd => h d (List.mem_cons_of_mem _ hd))

theorem parenthesized (h : Nested cs) : Nested ('(' :: (cs ++ [')'])) :=
  .group h .nil

end Nested

theorem leveled_open (depth : Int) (cs : List Char) :
    leveled depth ('(' :: cs) = ('(', false) :: leveled (depth + 1) cs := rfl

theorem leveled_close (depth : Int) (cs : List Char) :
    leveled depth (')' :: cs) = (')', false) :: leveled (depth - 1) cs := rfl

namespace Nested

variable {cs ds : List Char}

/-- Inside of a bracket nothing is outside of all brackets. -/
theorem leveled_inside (h : Nested cs) {depth : Int} (inside : 0 < depth) (rest : List Char) :
    leveled depth (cs ++ rest) = cs.map (·, false) ++ leveled depth rest := by
  induction h generalizing depth rest with
  | nil => rfl
  | other o c _ ih =>
    have deep : (depth == 0) = false := by
      rw [beq_eq_false_iff_ne]
      omega
    rw [List.cons_append, leveled, o, c, deep, ih inside]
    rfl
  | group _ _ ih ih' =>
    rw [List.cons_append, List.append_assoc, List.cons_append, leveled_open, ih (by omega),
      leveled_close, Int.add_sub_cancel, ih' inside]
    simp

/-- After the last parenthesis everything is as it was before the first one. -/
theorem leveled_append (h : Nested cs) (rest : List Char) :
    leveled 0 (cs ++ rest) = leveled 0 cs ++ leveled 0 rest := by
  induction h generalizing rest with
  | nil => rfl
  | other o c _ ih =>
    rw [List.cons_append, leveled, o, c, ih, leveled, o, c]
    rfl
  | group inner _ _ ih =>
    -- the first part of the group is not outside, so that nothing is asked of it by induction
    have inside (more : List Char) := inner.leveled_inside (show (0 : Int) < 0 + 1 by decide) more
    rw [List.cons_append, List.append_assoc, List.cons_append, leveled_open, inside, leveled_close,
      leveled_open, inside, leveled_close, Int.add_sub_cancel, ih]
    simp

theorem isBalanced_append (h : Nested cs) (depth : Nat) (rest : List Char) :
    isBalanced depth (cs ++ rest) = isBalanced depth rest := by
  induction h generalizing depth rest with
  | nil => rfl
  | other o c _ ih =>
    simp only [List.cons_append, isBalanced, o, c]
    exact ih depth rest
  | group _ _ ih ih' =>
    rw [List.cons_append, List.append_assoc, List.cons_append]
    exact (ih (depth + 1) _).trans (ih' depth rest)

theorem balanced (h : Nested cs) : isBalanced 0 cs = true := by
  have all := h.isBalanced_append 0 []
  rwa [List.append_nil] at all

end Nested

theorem closesAtEnd_cons {c : Char} {cs : List Char} (more : cs ≠ []) (depth : Int) :
    closesAtEnd depth (c :: cs) =
      if c == '(' then closesAtEnd (depth + 1) cs
      else if c == ')' then depth != 1 && closesAtEnd (depth - 1) cs
      else closesAtEnd depth cs := by
  cases cs with
  | nil => exact absurd rfl more
  | cons d ds => rfl

theorem closesAtEnd_open {cs : List Char} (more : cs ≠ []) (depth : Int) :
    closesAtEnd depth ('(' :: cs) = closesAtEnd (depth + 1) cs :=
  closesAtEnd_cons more depth

theorem closesAtEnd_close {cs : List Char} (more : cs ≠ []) (depth : Int) :
    closesAtEnd depth (')' :: cs) = (depth != 1 && closesAtEnd (depth - 1) cs) :=
  closesAtEnd_cons more depth

/-- The parenthesis that a part stands in is not closed in it. -/
theorem Nested.closesAtEnd_append {cs : List Char} (h : Nested cs) {depth : Int}
    (inside : 0 < depth) {rest : List Char} (more : rest ≠ []) :
    closesAtEnd depth (cs ++ rest) = closesAtEnd depth rest := by
  induction h generalizing depth rest with
  | nil => rfl
  | @other c cs o cl _ ih =>
    have notOpen : (c == '(') = false := (Bool.or_eq_false_iff.1 o).1
    have notClose : (c == ')') = false := (Bool.or_eq_false_iff.1 cl).1
    rw [List.cons_append, closesAtEnd_cons (by simp [more]), notOpen, notClose]
    exact ih inside more
  | @group cs ds _ _ ih ih' =>
    have deep : (depth + 1 != 1) = true := by
      rw [bne_iff_ne]
      omega
    rw [List.cons_append, List.append_assoc, List.cons_append, closesAtEnd_open (by simp),
      ih (by omega) (by simp), closesAtEnd_close (by simp [more]), deep, Bool.true_and,
      Int.add_sub_cancel, ih' inside more]

theorem map_fst_leveled (depth : Int) (cs : List Char) : (leveled depth cs).map Prod.fst = cs := by
  induction cs generalizing depth with
  | nil => rfl
  | cons c cs ih =>
    rw [leveled]
    split
    · rw [List.map_cons, ih]
    · split
      · rw [List.map_cons, ih]
      · rw [List.map_cons, ih]

/-! ### Pieces -/

section Pieces

variable (separates : Char × Bool → Bool)

theorem pieces_ne_nil (cs : List (Char × Bool)) : pieces separates cs ≠ [] := by
  cases cs with
  | nil => simp [pieces]
  | cons c cs =>
    rw [pieces]
    split
    · simp
    · split
      · simp
      · simp

/-- What divides two parts keeps their pieces apart. -/
theorem pieces_append_cons {m : Char × Bool} (h : separates m = true) (cs ds : List (Char × Bool)) :
    pieces separates (cs ++ m :: ds) = pieces separates cs ++ pieces separates ds := by
  induction cs with
  | nil => exact if_pos h
  | cons c cs ih =>
    rw [List.cons_append, pieces, ih, pieces]
    split
    · rfl
    · obtain ⟨p, ps, eq⟩ := List.exists_cons_of_ne_nil (pieces_ne_nil separates cs)
      rw [eq]
      rfl

theorem pieces_eq_singleton {cs : List (Char × Bool)} (h : ∀ m ∈ cs, separates m = false) :
    pieces separates cs = [cs.map Prod.fst] := by
  induction cs with
  | nil => rfl
  | cons c cs ih =>
    rw [pieces, h c List.mem_cons_self, ih fun m hm => h m (List.mem_cons_of_mem _ hm)]
    rfl

end Pieces

/-- The text is a word that is an operator in an expression. -/
def isWordOperator (text : List Char) : Bool :=
  wordOperators.contains (upper (String.ofList text))

/-- The character stands between terms. -/
def dividesTerms (m : Char × Bool) : Bool :=
  m.2 && (isOperator m.1 || m.1 == '-' || isBlank m.1)

/-- The character stands between arguments. -/
def dividesArguments (m : Char × Bool) : Bool :=
  m.2 && m.1 == ','

theorem termsOf_eq_filter (text : List Char) :
    termsOf text = ((pieces dividesTerms (leveled 0 text)).map trim).filter fun t =>
      !t.isEmpty && !isWordOperator t := rfl

theorem argumentsOf_eq_filter (text : List Char) :
    argumentsOf text =
      ((pieces dividesArguments (leveled 0 text)).map trim).filter fun t => !t.isEmpty := rfl

/-- A blank outside of all brackets divides a text. -/
theorem termsOf_append_blank {cs : List Char} (h : Nested cs) (ds : List Char) :
    termsOf (cs ++ ' ' :: ds) = termsOf cs ++ termsOf ds := by
  have blank : leveled 0 (' ' :: ds) = (' ', true) :: leveled 0 ds := rfl
  rw [termsOf_eq_filter, h.leveled_append, blank, pieces_append_cons _ rfl, List.map_append,
    List.filter_append, ← termsOf_eq_filter, ← termsOf_eq_filter]

/-! ### Terms -/

/-- No blank stands at either end of the text, which is not empty. -/
structure IsTrimmed (text : List Char) : Prop where
  nonempty : text ≠ []
  first : ∀ c ∈ text.head?, isBlank c = false
  last : ∀ c ∈ text.getLast?, isBlank c = false

theorem IsTrimmed.trim_eq {text : List Char} (h : IsTrimmed text) : trim text = text := by
  have back : trimStart text.reverse = text.reverse :=
    trimStart_eq_self_iff.2 (List.head?_reverse ▸ h.last)
  rw [trim, trimStart_eq_self_iff.2 h.first, trimEnd]
  exact (congrArg List.reverse back).trans text.reverse_reverse

/-- The text is not divided: outside of its brackets stand no operators, minus signs and blanks. -/
structure IsUndivided (text : List Char) : Prop where
  trimmed : IsTrimmed text
  outside : ∀ m ∈ leveled 0 text, dividesTerms m = false

/-- What is outside of all brackets is no operator and no second word. -/
theorem continues_undivided {ms : List (Char × Bool)} (h : ∀ m ∈ ms, dividesTerms m = false) :
    continues .start ms = false ∧ continues .term ms = false := by
  induction ms with
  | nil => exact ⟨rfl, rfl⟩
  | cons m ms ih =>
    obtain ⟨-, rest⟩ := ih fun m hm => h m (List.mem_cons_of_mem _ hm)
    obtain ⟨c, outside⟩ := m
    -- Inside brackets every mark is passed. Outside it is no operator, minus or blank by `h`.
    cases outside with
    | false =>
      have start : continues .start ((c, false) :: ms) = continues .term ms := rfl
      have term : continues .term ((c, false) :: ms) = continues .term ms := rfl
      rw [start, term]
      exact ⟨rest, rest⟩
    | true =>
      have plain := h (c, true) List.mem_cons_self
      rw [dividesTerms, Bool.true_and, Bool.or_eq_false_iff, Bool.or_eq_false_iff] at plain
      obtain ⟨⟨operator, minus⟩, blank⟩ := plain
      have start : continues .start ((c, true) :: ms) =
          if isOperator c then true else if c == '-' then continues .start ms
          else if isBlank c then continues .start ms else continues .term ms := rfl
      have term : continues .term ((c, true) :: ms) =
          if isOperator c then true else if c == '-' then true
          else if isBlank c then continues .afterBlank ms else continues .term ms := rfl
      rw [start, term, operator, minus, blank]
      exact ⟨rest, rest⟩

namespace IsUndivided

variable {text : List Char}

theorem looksLikeExpression_eq (h : IsUndivided text) : looksLikeExpression text = false :=
  (continues_undivided h.outside).1

theorem termsOf_eq (h : IsUndivided text) :
    termsOf text = if isWordOperator text then [] else [text] := by
  have whole : pieces dividesTerms (leveled 0 text) = [text] :=
    (pieces_eq_singleton _ h.outside).trans (by rw [map_fst_leveled])
  have some : text.isEmpty = false := by simpa using h.trimmed.nonempty
  rw [termsOf_eq_filter, whole, List.map_singleton, h.trimmed.trim_eq, List.filter_singleton, some]
  cases isWordOperator text with
  | true | false => rfl

end IsUndivided

/-- The text is one term: outside of its parentheses there are plain characters only. -/
structure IsTerm (text : List Char) : Prop where
  nested : Nested text
  trimmed : IsTrimmed text
  outside : ∀ m ∈ leveled 0 text, m.2 = true → isPlain m.1 = true

theorem continues_plain {c : Char} (h : isPlain c = true) (ms : List (Char × Bool)) :
    continues .start ((c, true) :: ms) = continues .term ms ∧
      continues .term ((c, true) :: ms) = continues .term ms := by
  have divides := plain_of_isPlain h
  have start : continues .start ((c, true) :: ms) =
      if isOperator c then true else if c == '-' then continues .start ms
      else if isBlank c then continues .start ms else continues .term ms := rfl
  have term : continues .term ((c, true) :: ms) =
      if isOperator c then true else if c == '-' then true
      else if isBlank c then continues .afterBlank ms else continues .term ms := rfl
  rw [start, term, divides.operator, divides.minus, divides.blank]
  exact ⟨rfl, rfl⟩

theorem IsTerm.of_plain {text : List Char} (nonempty : text ≠ [])
    (plain : ∀ c ∈ text, isPlain c = true) : IsTerm text where
  nested := .of_plain plain
  trimmed :=
    { nonempty
      first := fun c hc => isBlank_of_isPlain (plain c (List.mem_of_mem_head? hc))
      last := fun c hc => isBlank_of_isPlain (plain c (List.mem_of_mem_getLast? hc)) }
  outside := by
    intro m hm _
    refine plain m.1 ?_
    rw [← map_fst_leveled 0 text]
    exact List.mem_map_of_mem hm

/-- Parentheses with plain characters before them, such as a call. -/
theorem IsTerm.parenthesized {name cs : List Char} (plain : ∀ c ∈ name, isPlain c = true)
    (h : Nested cs) : IsTerm (name ++ '(' :: (cs ++ [')'])) where
  nested := (Nested.of_plain plain).append h.parenthesized
  trimmed :=
    { nonempty := by simp
      first := by
        intro c hc
        cases name with
        | nil =>
          cases hc
          rfl
        | cons d ds =>
          cases hc
          exact isBlank_of_isPlain (plain c List.mem_cons_self)
      last := by
        intro c hc
        have last : (name ++ '(' :: (cs ++ [')'])).getLast? = some ')' := by
          simp [List.getLast?_cons]
        rw [last] at hc
        cases hc
        rfl }
  outside := by
    intro m hm outside
    -- What is outside of all parentheses is the name, and nothing else.
    have inside : leveled (0 + 1) (cs ++ [')']) = cs.map (·, false) ++ [(')', false)] :=
      h.leveled_inside (by decide) _
    rw [(Nested.of_plain plain).leveled_append, leveled_open, inside] at hm
    obtain named | closed := List.mem_append.1 hm
    · refine plain m.1 ?_
      rw [← map_fst_leveled 0 name]
      exact List.mem_map_of_mem named
    · have hidden : m.2 = false := by
        simp only [List.mem_cons, List.mem_append, List.mem_map, List.not_mem_nil,
          or_false] at closed
        obtain rfl | ⟨c, -, rfl⟩ | rfl := closed
        · rfl
        · rfl
        · rfl
      rw [hidden] at outside
      cases outside

/-- Plain characters and what stands in brackets are passed over. -/
theorem continues_append {ms : List (Char × Bool)}
    (plain : ∀ m ∈ ms, m.2 = true → isPlain m.1 = true) (rest : List (Char × Bool)) :
    continues .term (ms ++ rest) = continues .term rest := by
  induction ms with
  | nil => rfl
  | cons m ms ih =>
    have ih := ih fun m hm => plain m (List.mem_cons_of_mem _ hm)
    obtain ⟨c, outside⟩ := m
    cases outside with
    | false => exact ih
    | true => exact (continues_plain (plain _ List.mem_cons_self rfl) _).2.trans ih

namespace IsTerm

variable {text : List Char}

/-- After a term the text goes on as after any term. -/
theorem continues_append (h : IsTerm text) (rest : List (Char × Bool)) :
    continues .start (leveled 0 text ++ rest) = continues .term rest := by
  -- a term is not empty, and its first character ends the start
  have outside := h.outside
  have chars := map_fst_leveled 0 text
  cases eq : leveled 0 text with
  | nil =>
    rw [eq] at chars
    exact absurd chars.symm h.trimmed.nonempty
  | cons m ms =>
    rw [eq] at outside
    have others := Operand.continues_append (fun m hm => outside m (List.mem_cons_of_mem _ hm)) rest
    obtain ⟨c, out⟩ := m
    cases out with
    | false => exact others
    | true => exact (continues_plain (outside _ List.mem_cons_self rfl) _).1.trans others

theorem undivided (h : IsTerm text) : IsUndivided text where
  trimmed := h.trimmed
  outside := by
    intro m hm
    cases top : m.2 with
    | false => rw [dividesTerms, top, Bool.false_and]
    | true =>
      have divides := plain_of_isPlain (h.outside m hm top)
      rw [dividesTerms, divides.operator, divides.minus, divides.blank]
      exact Bool.and_false _

end IsTerm

end Plc.Ladder.Operand

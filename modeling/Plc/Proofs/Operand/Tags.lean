/-
The tags that are found in an expression.

What is found in a formula depends on where it stands.  As a term of an expression it gives the tags
of its parts.  As a whole operand, or as the argument of a call, its text is classified first: in
parentheses it is taken for a tag, and if it begins with the mark of a radix it is taken for
a number.

* `classify_number`, `classify_expression`, `tags_classify_tag` — the three kinds of operands;
* `collect_word`, `collect_inputs`, `collect_paren`, `collect_bare` — the four kinds of terms;
* `Formula.inTerms`, `Formula.found` — what is found, as a term and as a whole;
* `Formula.tagsAll_collect`, `Formula.tags_classify` — the reader comes to an end, and finds just that.
-/
import Plc.Proofs.Fallible
import Plc.Proofs.Operand.Formula

namespace Plc.Ladder.Operand

open Text

/-! ### Values -/

namespace Value

theorem tagsAll_append (vs ws : List Value) : tagsAll (vs ++ ws) = tagsAll vs ++ tagsAll ws := by
  induction vs with
  | nil => rw [List.nil_append, tagsAll, List.nil_append]
  | cons v vs ih => rw [List.cons_append, tagsAll, tagsAll, ih, List.append_assoc]

/-- The tags of an expression are those of its terms. -/
theorem map_tags_expression (text : String) (r : Except Fault (List Value)) :
    (r.map fun terms => expression text terms).map tags = r.map tagsAll := by
  cases r with
  | error f => rfl
  | ok terms => exact congrArg Except.ok (by rw [tags])

/-- A value has the same tags as a term. -/
theorem tagsAll_asTerms (v : Value) : tagsAll v.asTerms = v.tags := by
  cases v with
  | literal _ => rw [asTerms, tagsAll, tags]
  | tag base path indices => rw [asTerms, tagsAll, tagsAll, List.append_nil]
  | expression _ terms => rw [asTerms, tags]

theorem map_tagsAll_asTerms (r : Except Fault Value) :
    (r.map asTerms).map tagsAll = r.map tags := by
  cases r with
  | error f => rfl
  | ok v => exact congrArg Except.ok v.tagsAll_asTerms

end Value

/-! ### Classification -/

section Classification

variable {text : List Char}

theorem isQuoted_eq_false (first : ∀ c ∈ text.head?, c ≠ '\'' ∧ c ≠ '"' ∧ c ≠ '%') :
    isQuoted text = false := by
  unfold isQuoted
  split
  · next q _ _ _ _ =>
    obtain ⟨single, double, -⟩ := first q rfl
    simp [single, double]
  · rfl

theorem classify_literal (literal : isLiteral (trim text) = true) (levels : Nat) :
    classify levels text = .ok (.literal (String.ofList (trim text))) := by
  cases levels with
  | zero | succ levels => simp only [classify, literal, if_true]

theorem classify_number (trimmed : IsTrimmed text) (number : isNumber text = true) (levels : Nat) :
    classify levels text = .ok (.literal (String.ofList text)) := by
  have same := trimmed.trim_eq
  rw [classify_literal (by rw [same, isLiteral, number, Bool.or_true, Bool.true_or, Bool.true_or]), same]

theorem not_isLiteral (trimmed : IsTrimmed text)
    (first : ∀ c ∈ text.head?, c ≠ '\'' ∧ c ≠ '"' ∧ c ≠ '%') (number : isNumber text = false) :
    isLiteral text = false := by
  have nonempty : text.isEmpty = false := by simpa using trimmed.nonempty
  have address : (text.head? == some '%') = false := by
    rw [beq_eq_false_iff_ne]
    exact fun percent => (first '%' percent).2.2 rfl
  rw [isLiteral, nonempty, number, isQuoted_eq_false first, address]
  rfl

theorem classify_expression (trimmed : IsTrimmed text) (literal : isLiteral text = false)
    (expression : isExpression text = true) (levels : Nat) :
    classify (levels + 1) text =
      (collect levels text).map fun terms => .expression (String.ofList text) terms := by
  rw [classify, trimmed.trim_eq]
  simp only [literal, expression, Bool.false_eq_true, if_false, if_true]

theorem subscripts_eq_nil (afterDot : Bool) (h : '[' ∉ text) :
    subscripts none afterDot text = [] := by
  induction text generalizing afterDot with
  | nil => rfl
  | cons c cs ih =>
    have other : (c == '[') = false := by
      rw [beq_eq_false_iff_ne]
      rintro rfl
      exact h List.mem_cons_self
    rw [subscripts, other]
    exact ih _ fun mem => h (List.mem_cons_of_mem _ mem)

/-- What is no literal and no expression is taken for a tag. -/
theorem tags_classify_tag (trimmed : IsTrimmed text) (literal : isLiteral text = false)
    (expression : isExpression text = false) (flat : '[' ∉ text) (levels : Nat) :
    (classify (levels + 1) text).map Value.tags = .ok [nameOf text] := by
  have none : partsOf text = [] := by
    rw [partsOf, subscripts_eq_nil]
    · rfl
    · exact fun mem => flat ((List.dropWhile_sublist _).subset ((List.dropWhile_sublist _).subset mem))
  rw [classify, trimmed.trim_eq]
  simp only [literal, expression, none]
  rfl

end Classification

/-! ### Terms -/

section Terms

variable {text : List Char}

theorem isWordOperator_eq_false (h : '(' ∈ text) : isWordOperator text = false := by
  rw [Bool.eq_false_iff]
  intro word
  have listed : upper (String.ofList text) ∈ wordOperators := List.contains_iff_mem.1 word
  have letters : ∀ w ∈ wordOperators, '(' ∉ w.toList := by decide
  refine letters _ listed ?_
  rw [upper, String.toList_ofList, String.toList_ofList]
  exact List.mem_flatMap.2 ⟨'(', h, by decide⟩

theorem collect_word (h : IsUndivided text) (word : isWordOperator text = true) (levels : Nat) :
    collect (levels + 1) text = .ok [] := by
  rw [collect, h.termsOf_eq, word]
  rfl

/-- A text that is one term is taken apart as this term. -/
theorem collect_term (h : IsUndivided text) (word : isWordOperator text = false) (levels : Nat) :
    collect (levels + 1) text = collectTerm levels text := by
  rw [collect, h.termsOf_eq, word]
  exact mapM_singleton_flatten _ _

theorem collect_inputs (h : IsUndivided text) (word : isWordOperator text = false)
    {args : List (List Char)} (inputs : inputs? text = some args) (levels : Nat) :
    collect (levels + 2) text =
      (args.mapM (classify levels)).map fun values => values.flatMap Value.asTerms := by
  rw [collect_term h word, collectTerm, inputs]

theorem collect_paren (h : IsUndivided text) (word : isWordOperator text = false)
    (inputs : inputs? text = none) (bare : withoutParens text.length text ≠ text) (levels : Nat) :
    collect (levels + 2) text = collect levels (withoutParens text.length text) := by
  rw [collect_term h word, collectTerm, inputs]
  simp [bare]

theorem collect_bare (h : IsUndivided text) (word : isWordOperator text = false)
    (inputs : inputs? text = none) (bare : withoutParens text.length text = text) (levels : Nat) :
    collect (levels + 2) text = (classify levels text).map Value.asTerms := by
  rw [collect_term h word, collectTerm, inputs]
  simp [bare, h.looksLikeExpression_eq]

end Terms

/-! ### Numbers -/

/-- The text begins with the mark of a radix. -/
def opensWithRadix (text : List Char) : Bool :=
  ['1', '6', '#'].isPrefixOf text || ['8', '#'].isPrefixOf text || ['2', '#'].isPrefixOf text

theorem isNumber_of_opensWithRadix {text : List Char} (h : opensWithRadix text = true) :
    isNumber text = true :=
  if_pos h

/-- Without a sign a number begins with the mark of a radix, or it is made of digits and what may
stand between them. -/
theorem isNumber_cons {c : Char} (plus : c ≠ '+') (minus : c ≠ '-') (cs : List Char) :
    isNumber (c :: cs) =
      (opensWithRadix (c :: cs) || (isAsciiDigit c && (c :: cs).all isNumberChar)) := by
  have unsigned : (c :: cs).dropWhile (fun c => c == '+' || c == '-') = c :: cs := by
    rw [List.dropWhile_cons_of_neg]
    simp [plus, minus]
  cases radix : opensWithRadix (c :: cs) with
  | true => rw [isNumber_of_opensWithRadix radix, Bool.true_or]
  | false =>
    unfold opensWithRadix at radix
    unfold isNumber
    rw [radix, unsigned]
    rfl

/-- A text that begins with no digit and no sign is no number. -/
theorem isNumber_eq_false {text : List Char}
    (first : ∀ c ∈ text.head?, isAsciiDigit c = false ∧ c ≠ '+' ∧ c ≠ '-') :
    isNumber text = false := by
  cases text with
  | nil => rfl
  | cons c cs =>
    obtain ⟨digit, plus, minus⟩ := first c rfl
    have mark {d : Char} (h : isAsciiDigit d = true) : (d == c) = false := by
      rw [beq_eq_false_iff_ne]
      rintro rfl
      rw [h] at digit
      cases digit
    rw [isNumber_cons plus minus, digit, opensWithRadix]
    simp [List.isPrefixOf, mark (d := '1') rfl, mark (d := '8') rfl, mark (d := '2') rfl]

theorem isNumber_paren (cs : List Char) : isNumber ('(' :: cs) = false :=
  isNumber_eq_false fun c hc => by
    cases hc
    decide

theorem Identifier.isNumber_append (i : Identifier) (rest : List Char) :
    isNumber (i.chars ++ rest) = false := by
  refine isNumber_eq_false fun c hc => ?_
  rw [List.head?_append_of_ne_nil _ i.nonempty] at hc
  obtain ⟨low, -⟩ := Lexed.toNat_of_isNameStart (i.start c hc)
  refine ⟨?_, ?_, ?_⟩
  · rw [isAsciiDigit, Bool.and_eq_false_iff, decide_eq_false_iff_not, decide_eq_false_iff_not]
    right
    intro (le : c.toNat ≤ 57)
    omega
  · rintro rfl
    exact absurd low (by decide)
  · rintro rfl
    exact absurd low (by decide)

theorem Decimal.isNumber (n : Decimal) : isNumber n.chars = true := by
  obtain ⟨c, cs, eq⟩ := List.exists_cons_of_ne_nil n.nonempty
  obtain ⟨-, plus, minus⟩ := n.rest c (by simp [eq])
  have digit : isAsciiDigit c = true := n.start c (by simp [eq])
  have all : n.chars.all isNumberChar = true := List.all_eq_true.2 fun d hd => (n.rest d hd).1
  rw [eq] at all
  rw [eq, isNumber_cons plus minus, digit, all, Bool.true_and, Bool.or_true]

/-- A number with more after it is no number. -/
theorem Decimal.isNumber_append (n : Decimal) (rest : List Char) :
    Operand.isNumber (n.chars ++ ' ' :: rest) = false := by
  have mark : '#' ∉ n.chars := fun mem => absurd (n.rest _ mem).1 (by decide)
  have blank : (n.chars ++ ' ' :: rest).all isNumberChar = false := by
    rw [List.all_append]
    simp [show isNumberChar ' ' = false from rfl]
  have radix : opensWithRadix (n.chars ++ ' ' :: rest) = false := by
    -- a mark has at most two digits before its `#`
    generalize n.chars = cs at mark
    rcases cs with - | ⟨a, - | ⟨b, - | ⟨c, cs⟩⟩⟩
    · rfl
    · simp [opensWithRadix, List.isPrefixOf]
    · have other : b ≠ '#' := fun eq => mark (by simp [eq])
      simp [opensWithRadix, List.isPrefixOf, other.symm]
    · have other : b ≠ '#' := fun eq => mark (by simp [eq])
      have other' : c ≠ '#' := fun eq => mark (by simp [eq])
      simp [opensWithRadix, List.isPrefixOf, other.symm, other'.symm]
  obtain ⟨c, cs, eq⟩ := List.exists_cons_of_ne_nil n.nonempty
  obtain ⟨-, plus, minus⟩ := n.rest c (by simp [eq])
  rw [eq, List.cons_append] at blank radix ⊢
  rw [isNumber_cons plus minus, blank, radix, Bool.and_false]
  rfl

theorem Based.opensWithRadix (b : Based) (rest : List Char) :
    opensWithRadix (b.chars ++ rest) = true := by
  rw [chars]
  cases b.radix with
  | hexadecimal | octal | binary => rfl

namespace Formula

/-- The leftmost term of the formula is a number that names its radix. -/
def isBased : Formula → Bool
  | based _ => true
  | binary l _ _ => l.isBased
  | _ => false

theorem isNumber_of_isBased {e : Formula} (h : e.isBased = true) : isNumber e.chars = true := by
  have opens (rest : List Char) : opensWithRadix (e.chars ++ rest) = true := by
    induction e generalizing rest with
    | based b => exact b.opensWithRadix rest
    | binary l o r ih _ =>
      rw [chars, List.append_assoc]
      exact ih h _
    | path | decimal | paren | call => cases h
  have all := opens []
  rw [List.append_nil] at all
  exact isNumber_of_opensWithRadix all

/-- If the text goes on after a formula, then it is a number only by the mark that it begins
with. -/
theorem isNumber_append {e : Formula} (h : e.isBased = false) (rest : List Char) :
    isNumber (e.chars ++ ' ' :: rest) = false := by
  induction e generalizing rest with
  | path p =>
    rw [chars, Path.chars, List.append_assoc]
    exact p.base.isNumber_append _
  | decimal n => exact n.isNumber_append rest
  | based b => cases h
  | paren e _ => exact isNumber_paren _
  | call f e _ =>
    rw [chars, List.append_assoc]
    exact f.isNumber_append _
  | binary l o r ih _ =>
    rw [chars, List.append_assoc]
    exact ih h _

end Formula

/-! ### What is found -/

namespace Formula

/-- The text before the first access. -/
def front (e : Formula) : String :=
  String.ofList (e.chars.takeWhile fun c => !endsName c)

/-- What is found in an operand that is the formula, if its terms are read at all. -/
def alone (e : Formula) (terms : List String) : List String :=
  match e with
  | path _ | paren _ => [e.front]
  | _ => if e.isBased then [] else terms

/-- What is found in the terms of an expression. -/
def inTerms : Formula → List String
  | path p => if isWordOperator p.chars then [] else [(path p).front]
  | decimal _ | based _ => []
  | paren e => e.inTerms
  | call _ e => e.alone e.inTerms
  | binary l _ r => l.inTerms ++ r.inTerms

/-- What is found in an operand. -/
def found (e : Formula) : List String :=
  e.alone e.inTerms

theorem first (e : Formula) : ∀ c ∈ e.chars.head?, c ≠ '\'' ∧ c ≠ '"' ∧ c ≠ '%' := by
  intro c hc
  refine ⟨?_, ?_, ?_⟩
  · rintro rfl
    cases isFormulaChar_of_mem (List.mem_of_mem_head? hc)
  · rintro rfl
    cases isFormulaChar_of_mem (List.mem_of_mem_head? hc)
  · rintro rfl
    cases isFormulaChar_of_mem (List.mem_of_mem_head? hc)

theorem isFunctionCall_call (f : FunctionName) (e : Formula) :
    isFunctionCall (call f e).chars = true := by
  rw [isFunctionCall, chars, call?_append]
  exact f.known

theorem call?_plain {text : List Char} (plain : ∀ c ∈ text, isPlain c = true) : call? text = none :=
  call?_eq_none fun mem => absurd (plain _ mem) (by decide)

theorem inputs?_plain {text : List Char} (plain : ∀ c ∈ text, isPlain c = true) :
    inputs? text = none := by
  rw [inputs?, call?_plain plain]

theorem tags_classify_path (p : Path) (levels : Nat) :
    (classify (levels + 1) (path p).chars).map Value.tags = .ok [(path p).front] := by
  have number : isNumber (path p).chars = false := p.base.isNumber_append _
  have expression : isExpression (path p).chars = false := by
    rw [isExpression, looksLikeExpression_chars, isFunctionCall, chars, call?_plain p.isPlain_of_mem]
    rfl
  exact tags_classify_tag (trimmed _) (not_isLiteral (trimmed _) (first _) number) expression
    (not_mem_chars _).2 levels

theorem tags_classify_paren (e : Formula) (levels : Nat) :
    (classify (levels + 1) (paren e).chars).map Value.tags = .ok [(paren e).front] := by
  have number : isNumber (paren e).chars = false := isNumber_paren _
  have expression : isExpression (paren e).chars = false := by
    rw [isExpression, looksLikeExpression_chars, isFunctionCall, chars, call?_paren]
    rfl
  exact tags_classify_tag (trimmed _) (not_isLiteral (trimmed _) (first _) number) expression
    (not_mem_chars _).2 levels

/-- The tags in an expression are those in its terms. -/
theorem tags_classify_expression (e : Formula) (number : isNumber e.chars = false)
    (expression : isExpression e.chars = true) (levels : Nat) :
    (classify (levels + 1) e.chars).map Value.tags = (collect levels e.chars).map Value.tagsAll := by
  have literal := not_isLiteral (trimmed e) (first e) number
  rw [classify_expression (trimmed e) literal expression, Value.map_tags_expression]

/-- What is found in a formula as a whole, if the right tags are found in its terms. -/
theorem tags_classify (e : Formula) {levels : Nat}
    (terms : (collect levels e.chars).map Value.tagsAll = .ok e.inTerms) :
    (classify (levels + 1) e.chars).map Value.tags = .ok e.found := by
  have no_tags (text : String) : (Value.literal text).tags = [] := by rw [Value.tags]
  -- only calls and operations are taken apart into terms
  cases e with
  | path p => exact tags_classify_path p levels
  | paren e => exact tags_classify_paren e levels
  | decimal n =>
    rw [classify_number (trimmed _) (show isNumber (decimal n).chars = true from n.isNumber)]
    exact congrArg Except.ok (no_tags _)
  | based b =>
    rw [classify_number (trimmed _) (isNumber_of_isBased (e := based b) rfl)]
    exact congrArg Except.ok (no_tags _)
  | call f e =>
    have number : isNumber (call f e).chars = false := f.isNumber_append _
    rw [tags_classify_expression _ number (by rw [isExpression, isFunctionCall_call, Bool.or_true]), terms]
    rfl
  | binary l o r =>
    have whole : (binary l o r).found =
        if (binary l o r).isBased then [] else (binary l o r).inTerms := rfl
    cases based : (binary l o r).isBased with
    | true =>
      rw [classify_number (trimmed _) (isNumber_of_isBased based), whole, based]
      exact congrArg Except.ok (no_tags _)
    | false =>
      have number : isNumber (binary l o r).chars = false := isNumber_append (e := l) based _
      have expression : isExpression (binary l o r).chars = true := by
        rw [isExpression, looksLikeExpression_chars]
        rfl
      rw [tags_classify_expression _ number expression, terms, whole, based]
      rfl

theorem inputs?_call (f : FunctionName) (e : Formula) :
    inputs? (call f e).chars = some [e.chars] := by
  have whole : pieces dividesArguments (leveled 0 e.chars) = [e.chars] := by
    refine (pieces_eq_singleton _ fun m hm => ?_).trans (by rw [map_fst_leveled])
    have other : m.1 ≠ ',' := by
      intro comma
      refine e.not_mem_chars.1 ?_
      rw [← map_fst_leveled 0 e.chars, ← comma]
      exact List.mem_map_of_mem hm
    simp [dividesArguments, other]
  have args : argumentsOf e.chars = [e.chars] := by
    rw [argumentsOf_eq_filter, whole, List.map_singleton, e.trimmed.trim_eq]
    simp [e.trimmed.nonempty]
  rw [inputs?, chars, call?_append]
  simp [e.nested.balanced, args]

theorem inputs?_paren (e : Formula) : inputs? (paren e).chars = none := rfl

theorem length_core_le (e : Formula) : e.core.chars.length ≤ e.chars.length := by
  induction e with
  | paren e ih =>
    simp only [core, chars, List.length_cons, List.length_append]
    omega
  | path | decimal | based | call | binary => exact Nat.le_refl _

/-- A number is dropped, whether it is read or not. -/
theorem tagsAll_collect_number {e : Formula} (term : e.isBinary = false)
    (plain : ∀ c ∈ e.chars, isPlain c = true) (core : e.core = e)
    (number : isNumber e.chars = true) (levels : Nat) :
    (collect (levels + 2) e.chars).map Value.tagsAll = .ok [] := by
  have no_tags : Value.tagsAll [] = [] := by rw [Value.tagsAll]
  cases word : isWordOperator e.chars with
  | true =>
    rw [collect_word (isTerm term).undivided word]
    exact congrArg Except.ok no_tags
  | false =>
    have bare := withoutParens_chars e (Nat.le_refl _)
    rw [core] at bare
    rw [collect_bare (isTerm term).undivided word (inputs?_plain plain) bare, classify_number (trimmed _) number]
    exact congrArg Except.ok no_tags

theorem tagsAll_collect_path (p : Path) (levels : Nat) :
    (collect (levels + 3) (path p).chars).map Value.tagsAll = .ok (path p).inTerms := by
  have whole : (path p).inTerms = if isWordOperator (path p).chars then [] else [(path p).front] := rfl
  cases word : isWordOperator (path p).chars with
  | true =>
    rw [collect_word (isTerm rfl).undivided word, whole, word]
    exact congrArg Except.ok (by rw [Value.tagsAll]; rfl)
  | false =>
    have bare := withoutParens_chars (path p) (Nat.le_refl _)
    rw [collect_bare (isTerm rfl).undivided word (inputs?_plain p.isPlain_of_mem) bare,
      Value.map_tagsAll_asTerms, tags_classify_path, whole, word]
    rfl

theorem collect_call (f : FunctionName) (e : Formula) (levels : Nat) :
    collect (levels + 2) (call f e).chars = (classify levels e.chars).map Value.asTerms := by
  have word : isWordOperator (call f e).chars = false := isWordOperator_eq_false (by simp [chars])
  rw [collect_inputs (isTerm rfl).undivided word (inputs?_call f e), List.mapM_cons, List.mapM_nil]
  cases classify levels e.chars with
  | error f => rfl
  | ok v => exact congrArg Except.ok (by simp)

theorem collect_parens (e : Formula) (levels : Nat) :
    collect (levels + 2) (paren e).chars = collect levels e.core.chars := by
  have word : isWordOperator (paren e).chars = false := isWordOperator_eq_false (by simp [chars])
  have bare := withoutParens_chars (paren e) (Nat.le_refl _)
  rw [collect_paren (isTerm rfl).undivided word (inputs?_paren e), bare]
  · rfl
  · -- something has been taken away
    rw [bare]
    intro same
    have shorter := congrArg List.length same
    have := length_core_le e
    simp only [core, chars, List.length_cons, List.length_append] at shorter
    omega

/-- The operands of an operation are taken apart one after the other. -/
theorem tagsAll_collect_binary {l r : Formula} {levels : Nat} (o : Operator) {ls rs : List String}
    (left : (collect levels l.chars).map Value.tagsAll = .ok ls)
    (right : (collect levels r.chars).map Value.tagsAll = .ok rs) :
    (collect levels (binary l o r).chars).map Value.tagsAll = .ok (ls ++ rs) := by
  cases levels with
  | zero => cases left
  | succ levels =>
    obtain ⟨vs, hvs, rfl⟩ := map_eq_ok left
    obtain ⟨ws, hws, rfl⟩ := map_eq_ok right
    rw [collect] at hvs hws ⊢
    obtain ⟨lefts, hl, rfl⟩ := map_eq_ok hvs
    obtain ⟨rights, hr, rfl⟩ := map_eq_ok hws
    rw [termsOf_binary, List.mapM_append, hl, hr]
    refine congrArg Except.ok ?_
    rw [List.flatten_append, Value.tagsAll_append]

/-- Where there are levels enough, the right tags are found in the terms of a formula, whether
parentheses are around it or not. -/
theorem tagsAll_collect (e : Formula) {levels : Nat} (enough : 4 * e.chars.length ≤ levels) :
    (collect levels e.chars).map Value.tagsAll = .ok e.inTerms ∧
      (collect levels e.core.chars).map Value.tagsAll = .ok e.inTerms := by
  have some := List.length_pos_iff.2 (trimmed e).nonempty
  obtain ⟨n, rfl⟩ : ∃ n, levels = n + 3 := ⟨levels - 3, by omega⟩
  -- The reader takes all parentheses around a term away at once; the second half is what the
  -- induction says about the formula within them.
  induction e generalizing n with
  | decimal d =>
    exact and_self_iff.2
      (tagsAll_collect_number (e := decimal d) rfl d.isPlain_of_mem rfl d.isNumber (n + 1))
  | based b =>
    exact and_self_iff.2 (tagsAll_collect_number (e := based b) rfl b.isPlain_of_mem rfl
      (isNumber_of_isBased rfl) (n + 1))
  | path p => exact and_self_iff.2 (tagsAll_collect_path p n)
  | paren e ih =>
    have some := List.length_pos_iff.2 (trimmed e).nonempty
    simp only [chars, List.length_cons, List.length_append, List.length_nil] at enough
    obtain ⟨m, rfl⟩ : ∃ m, n = m + 2 := ⟨n - 2, by omega⟩
    rw [collect_parens]
    exact ⟨(ih some m (by omega)).2, (ih some (m + 2) (by omega)).2⟩
  | call f e ih =>
    have some := List.length_pos_iff.2 (trimmed e).nonempty
    simp only [chars, List.length_cons, List.length_append, List.length_nil] at enough
    obtain ⟨m, rfl⟩ : ∃ m, n = m + 3 := ⟨n - 3, by omega⟩
    refine and_self_iff.2 ?_
    rw [collect_call, Value.map_tagsAll_asTerms]
    -- the argument is an operand of its own, three levels further down
    exact tags_classify e (ih some m (by omega)).1
  | binary l o r ihl ihr =>
    have some_left := List.length_pos_iff.2 (trimmed l).nonempty
    have some_right := List.length_pos_iff.2 (trimmed r).nonempty
    simp only [chars, List.length_cons, List.length_append] at enough
    exact and_self_iff.2 (tagsAll_collect_binary o (ihl some_left n (by omega)).1
      (ihr some_right n (by omega)).1)

/-- What is found in an operand. -/
theorem tags_value_found (e : Formula) : (value e.text).map Value.tags = .ok e.found := by
  have length : e.text.length = e.chars.length := String.length_ofList
  rw [value, length, text, String.toList_ofList]
  exact tags_classify e (tagsAll_collect e (Nat.le_succ _)).1

end Formula

end Plc.Ladder.Operand

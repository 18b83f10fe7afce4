/-
Expressions over tags, and how they are written.

A formula is built from tag paths, numbers, parentheses, calls of known functions and operators with
a blank on either side.  Written out, its parentheses match, and outside of them only its operators
and the blanks around them divide it.

* `Formula`, `Formula.chars`, `Formula.bases` — formulas, their text and the names of their tags;
* `Formula.nested`, `Formula.trimmed`, `Formula.isTerm` — what their text is like;
* `Formula.termsOf_binary`, `Formula.looksLikeExpression_binary` — operators divide it;
* `Formula.withoutParens_chars`, `Formula.call?_call` — parentheses around it and before it.
-/
import Plc.Proofs.Operand.Brackets

namespace Plc.Ladder.Operand

open Text

/-! ### What formulas are made of -/

/-- A letter or `_`, followed by letters, digits and `_`. -/
structure Identifier where
  chars : List Char
  nonempty : chars ≠ []
  start : ∀ c ∈ chars.head?, isNameStart c = true
  rest : ∀ c ∈ chars, isNameChar c = true

/-- The name of a tag and of members, perhaps bits, of it. -/
structure Path where
  base : Identifier
  members : List (List Char)
  plain : ∀ m ∈ members, ∀ c ∈ m, isNameChar c = true

/-- The path as it is written. -/
def Path.chars (p : Path) : List Char :=
  p.base.chars ++ p.members.flatMap ('.' :: ·)

/-- A number without a sign. -/
structure Decimal where
  chars : List Char
  nonempty : chars ≠ []
  start : ∀ c ∈ chars.head?, isAsciiDigit c = true
  rest : ∀ c ∈ chars, isNumberChar c = true ∧ c ≠ '+' ∧ c ≠ '-'

/-- What an integer that names its radix begins with. -/
inductive Radix where
  | hexadecimal
  | octal
  | binary

/-- The mark of the radix. -/
def Radix.chars : Radix → List Char
  | .hexadecimal => ['1', '6', '#']
  | .octal => ['8', '#']
  | .binary => ['2', '#']

/-- An integer that names its radix. -/
structure Based where
  radix : Radix
  digits : List Char
  plain : ∀ c ∈ digits, isNameChar c = true

/-- The number as it is written. -/
def Based.chars (b : Based) : List Char :=
  b.radix.chars ++ b.digits

/-- The name of a known function. -/
structure FunctionName extends Identifier where
  known : functions.contains (upper (String.ofList chars)) = true

/-- What stands between two terms. -/
inductive Operator where
  | plus | minus | times | divided | greater | less | equal | and | or | xor | mod

/-- The operator as it is written. -/
def Operator.chars : Operator → List Char
  | .plus => ['+']
  | .minus => ['-']
  | .times => ['*']
  | .divided => ['/']
  | .greater => ['>']
  | .less => ['<']
  | .equal => ['=']
  | .and => ['A', 'N', 'D']
  | .or => ['O', 'R']
  | .xor => ['X', 'O', 'R']
  | .mod => ['M', 'O', 'D']

/-- An expression over tags. -/
inductive Formula where
  | path (p : Path)
  | decimal (n : Decimal)
  | based (b : Based)
  | paren (e : Formula)
  | call (f : FunctionName) (e : Formula)
  | binary (l : Formula) (o : Operator) (r : Formula)

namespace Formula

/-- The formula as it is written. -/
def chars : Formula → List Char
  | path p => p.chars
  | decimal n => n.chars
  | based b => b.chars
  | paren e => '(' :: (e.chars ++ [')'])
  | call f e => f.chars ++ '(' :: (e.chars ++ [')'])
  | binary l o r => l.chars ++ ' ' :: (o.chars ++ ' ' :: r.chars)

/-- The text of the formula. -/
def text (e : Formula) : String :=
  String.ofList e.chars

/-- The names of the tags in the formula, from left to right. -/
def bases : Formula → List String
  | path p => [String.ofList p.base.chars]
  | decimal _ | based _ => []
  | paren e | call _ e => e.bases
  | binary l _ r => l.bases ++ r.bases

/-- The formula has an operator outside of all parentheses. -/
def isBinary : Formula → Bool
  | binary .. => true
  | _ => false

/-- A formula is put together from formulas without operators outside of parentheses. -/
@[elab_as_elim]
theorem operations {motive : Formula → Prop} (term : ∀ e, e.isBinary = false → motive e)
    (binary : ∀ l o r, motive l → motive r → motive (.binary l o r)) (e : Formula) : motive e := by
  induction e with
  | binary l o r ihl ihr => exact binary l o r ihl ihr
  | path | decimal | based | paren | call => exact term _ rfl

end Formula

/-! ### Characters -/

theorem Path.isPlain_of_mem (p : Path) : ∀ c ∈ p.chars, isPlain c = true := by
  intro c hc
  obtain base | member := List.mem_append.1 hc
  · exact isPlain_of_isNameChar (p.base.rest c base)
  · obtain ⟨m, hm, mem⟩ := List.mem_flatMap.1 member
    obtain rfl | inside := List.mem_cons.1 mem
    · rfl
    · exact isPlain_of_isNameChar (p.plain m hm c inside)

theorem Decimal.isPlain_of_mem (n : Decimal) : ∀ c ∈ n.chars, isPlain c = true := by
  intro c hc
  obtain ⟨number, plus, minus⟩ := n.rest c hc
  simp only [isNumberChar, Bool.or_eq_true, beq_iff_eq] at number
  rw [isPlain, isNameChar]
  obtain (((((digit | rfl) | rfl) | rfl) | rfl) | rfl) | rfl := number
  · rw [digit]
    simp
  · rfl
  · rfl
  · rfl
  · exact absurd rfl plus
  · exact absurd rfl minus
  · rfl

theorem Based.isPlain_of_mem (b : Based) : ∀ c ∈ b.chars, isPlain c = true := by
  intro c hc
  obtain mark | digit := List.mem_append.1 hc
  · have all : b.radix.chars.all isPlain = true := by
      cases b.radix with
      | hexadecimal | octal | binary => rfl
    exact List.all_eq_true.1 all c mark
  · exact isPlain_of_isNameChar (b.plain c digit)

theorem Identifier.isPlain_of_mem (i : Identifier) : ∀ c ∈ i.chars, isPlain c = true :=
  fun c hc => isPlain_of_isNameChar (i.rest c hc)

theorem Operator.nested (o : Operator) : Nested o.chars := by
  cases o with
  | plus | minus | times | divided | greater | less | equal => exact .other rfl rfl .nil
  | or => exact .other rfl rfl (.other rfl rfl .nil)
  | and | xor | mod => exact .other rfl rfl (.other rfl rfl (.other rfl rfl .nil))

namespace Formula

theorem nested (e : Formula) : Nested e.chars := by
  induction e with
  | path p => exact .of_plain p.isPlain_of_mem
  | decimal n => exact .of_plain n.isPlain_of_mem
  | based b => exact .of_plain b.isPlain_of_mem
  | paren e ih => exact ih.parenthesized
  | call f e ih => exact (Nested.of_plain f.isPlain_of_mem).append ih.parenthesized
  | binary l o r ihl ihr =>
    exact ihl.append (.other rfl rfl (o.nested.append (.other rfl rfl ihr)))

/-- A formula that no operator divides is one term. -/
theorem isTerm {e : Formula} (h : e.isBinary = false) : IsTerm e.chars := by
  cases e with
  | path p => exact .of_plain (by simp [chars, Path.chars, p.base.nonempty]) p.isPlain_of_mem
  | decimal n => exact .of_plain n.nonempty n.isPlain_of_mem
  | based b =>
    refine .of_plain ?_ b.isPlain_of_mem
    rw [chars, Based.chars]
    cases b.radix with
    | hexadecimal | octal | binary => simp [Radix.chars]
  | paren e => exact IsTerm.parenthesized (List.forall_mem_nil _) e.nested
  | call f e => exact .parenthesized f.isPlain_of_mem e.nested
  | binary l o r => cases h

theorem trimmed (e : Formula) : IsTrimmed e.chars := by
  induction e using operations with
  | term e h => exact (isTerm h).trimmed
  | binary l o r ihl ihr =>
    obtain ⟨c, cs, eq⟩ := List.exists_cons_of_ne_nil ihl.nonempty
    refine ⟨by simp [chars], ?_, ?_⟩
    · have first := ihl.first
      rw [chars, eq]
      rwa [eq] at first
    · have last : (binary l o r).chars.getLast? = r.chars.getLast? := by
        obtain ⟨d, ds, eq'⟩ := List.exists_cons_of_ne_nil ihr.nonempty
        simp [chars, List.getLast?_append, eq', List.getLast?_cons]
      rw [last]
      exact ihr.last

/-- Formulas are written with these characters. -/
def isFormulaChar (c : Char) : Bool :=
  isPlain c || isOperator c || c == '-' || c == ' ' || c == '(' || c == ')'

theorem isFormulaChar_of_isPlain {c : Char} (h : isPlain c = true) : isFormulaChar c = true := by
  rw [isFormulaChar, h]
  rfl

theorem isFormulaChar_of_mem {e : Formula} {c : Char} (h : c ∈ e.chars) :
    isFormulaChar c = true := by
  -- Induction on the formula; each character is one of a part, or a sign between the parts.
  induction e with
  | path p => exact isFormulaChar_of_isPlain (p.isPlain_of_mem c h)
  | decimal n => exact isFormulaChar_of_isPlain (n.isPlain_of_mem c h)
  | based b => exact isFormulaChar_of_isPlain (b.isPlain_of_mem c h)
  | paren e ih =>
    simp only [chars, List.mem_cons, List.mem_append, List.not_mem_nil, or_false] at h
    obtain rfl | inside | rfl := h
    · rfl
    · exact ih inside
    · rfl
  | call f e ih =>
    simp only [chars, List.mem_cons, List.mem_append, List.not_mem_nil, or_false] at h
    obtain name | rfl | inside | rfl := h
    · exact isFormulaChar_of_isPlain (f.isPlain_of_mem c name)
    · rfl
    · exact ih inside
    · rfl
  | binary l o r ihl ihr =>
    simp only [chars, List.mem_cons, List.mem_append] at h
    obtain left | rfl | operator | rfl | right := h
    · exact ihl left
    · rfl
    · have all : o.chars.all isFormulaChar = true := by cases o <;> rfl
      exact List.all_eq_true.1 all c operator
    · rfl
    · exact ihr right

/-- No comma and no square bracket comes in a formula. -/
theorem not_mem_chars (e : Formula) : ',' ∉ e.chars ∧ '[' ∉ e.chars := by
  refine ⟨fun comma => ?_, fun bracket => ?_⟩
  · cases isFormulaChar_of_mem comma
  · cases isFormulaChar_of_mem bracket

/-! ### Operators -/

theorem termsOf_operator (o : Operator) : termsOf o.chars = [] := by
  cases o <;> rfl

/-- The terms of a formula are those on the left of its operator and those on the right. -/
theorem termsOf_binary (l : Formula) (o : Operator) (r : Formula) :
    termsOf (binary l o r).chars = termsOf l.chars ++ termsOf r.chars := by
  rw [chars, termsOf_append_blank l.nested, termsOf_append_blank o.nested, termsOf_operator,
    List.nil_append]

theorem looksLikeExpression_term {text : List Char} (h : IsTerm text) (o : Operator)
    (rest : List Char) : looksLikeExpression (text ++ ' ' :: (o.chars ++ ' ' :: rest)) = true := by
  rw [looksLikeExpression, h.nested.leveled_append, h.continues_append]
  cases o <;> rfl

/-- An operator with a blank before it is seen, whatever comes before. -/
theorem looksLikeExpression_append (e : Formula) (o : Operator) (rest : List Char) :
    looksLikeExpression (e.chars ++ ' ' :: (o.chars ++ ' ' :: rest)) = true := by
  induction e using operations generalizing o rest with
  | term e h => exact looksLikeExpression_term (isTerm h) o rest
  | binary l o' r ihl _ =>
    rw [chars, List.append_assoc, List.cons_append, List.append_assoc, List.cons_append]
    exact ihl o' _

theorem looksLikeExpression_chars (e : Formula) : looksLikeExpression e.chars = e.isBinary := by
  induction e using operations with
  | term e h => rw [(isTerm h).undivided.looksLikeExpression_eq, h]
  | binary l o r _ _ => exact looksLikeExpression_append l o r.chars

/-! ### Parentheses -/

/-- The formula without the parentheses around all of it. -/
def core : Formula → Formula
  | paren e => e.core
  | e => e

theorem paren_or_plain {e : Formula} (h : e.isBinary = false) :
    (∃ inner, e = paren inner) ∨ ∀ c ∈ e.chars.head?, isPlain c = true := by
  cases e with
  | paren e => exact .inl ⟨e, rfl⟩
  | binary l o r => cases h
  | path p => exact .inr fun c hc => p.isPlain_of_mem c (List.mem_of_mem_head? hc)
  | decimal n => exact .inr fun c hc => n.isPlain_of_mem c (List.mem_of_mem_head? hc)
  | based b => exact .inr fun c hc => b.isPlain_of_mem c (List.mem_of_mem_head? hc)
  | call f e =>
    refine .inr fun c hc => f.isPlain_of_mem c ?_
    rw [chars, List.head?_append_of_ne_nil _ f.nonempty] at hc
    exact List.mem_of_mem_head? hc

theorem head?_binary (l : Formula) (o : Operator) (r : Formula) :
    (binary l o r).chars.head? = l.chars.head? := by
  rw [chars, List.head?_append_of_ne_nil _ l.trimmed.nonempty]

/-- If the text goes on after a formula, then the parenthesis that it begins with is not closed at
the end. -/
theorem closesAtEnd_append (e : Formula) (rest : List Char) (opened : e.chars.head? = some '(') :
    closesAtEnd 0 (e.chars ++ ' ' :: rest) = false := by
  induction e using operations generalizing rest with
  | binary l o r ihl _ =>
    rw [chars, List.append_assoc, List.cons_append]
    exact ihl _ (head?_binary l o r ▸ opened)
  | term e h =>
    -- what begins with a parenthesis is `inner` in parentheses, and they are closed before the blank
    obtain ⟨inner, rfl⟩ | plain := paren_or_plain h
    · rw [chars, List.cons_append, List.append_assoc, closesAtEnd_open (by simp),
        inner.nested.closesAtEnd_append (by decide) (by simp), List.singleton_append,
        closesAtEnd_close (by simp)]
      rfl
    · exact absurd (plain '(' opened) (by decide)

theorem closesAtEnd_chars {e : Formula} (other : ∀ inner, e ≠ paren inner)
    (opened : e.chars.head? = some '(') : closesAtEnd 0 e.chars = false := by
  induction e using operations with
  | binary l o r _ _ => exact closesAtEnd_append l _ (head?_binary l o r ▸ opened)
  | term e h =>
    obtain ⟨inner, rfl⟩ | plain := paren_or_plain h
    · exact absurd rfl (other inner)
    · exact absurd (plain '(' opened) (by decide)

end Formula

theorem withoutParens_eq_self {text : List Char} (count : Nat)
    (closed : text.head? = some '(' → closesAtEnd 0 text = false) :
    withoutParens count text = text := by
  cases count with
  | zero => rfl
  | succ count =>
    unfold withoutParens
    split
    · rw [closed rfl, Bool.and_false]
      rfl
    · rfl

namespace Formula

/-- The parentheses around all of a formula are taken away, and no others. -/
theorem withoutParens_chars (e : Formula) {count : Nat} (enough : e.chars.length ≤ count) :
    withoutParens count e.chars = e.core.chars := by
  induction e generalizing count with
  | paren e ih =>
    cases count with
    | zero => simp [chars] at enough
    | succ count =>
      -- one pair of parentheses goes, and what is left is shorter by two
      have last : (e.chars ++ [')']).getLast? = some ')' := List.getLast?_concat ..
      have closed : closesAtEnd 0 ('(' :: (e.chars ++ [')'])) = true := by
        rw [closesAtEnd_open (by simp), e.nested.closesAtEnd_append (by decide) (by simp)]
        rfl
      have inner : e.chars.length ≤ count := by
        simp only [chars, List.length_cons, List.length_append, List.length_nil] at enough
        omega
      rw [chars, withoutParens, last, closed, List.dropLast_concat, e.trimmed.trim_eq]
      exact ih inner
  | binary _ _ _ _ _ | path | decimal | based | call =>
    refine withoutParens_eq_self count (closesAtEnd_chars fun inner same => ?_)
    cases same

end Formula

/-! ### Calls -/

theorem call?_eq_none {text : List Char} (h : '(' ∉ text) : call? text = none := by
  unfold call?
  dsimp only
  split
  · next opened =>
    refine absurd ?_ h
    have mem : '(' ∈ (text.dropWhile isNameChar).dropWhile isBlank := by simp [opened]
    exact (List.dropWhile_sublist _).subset ((List.dropWhile_sublist _).subset mem)
  · rfl

theorem call?_paren (cs : List Char) : call? ('(' :: cs) = none := rfl

/-- A name and what stands in parentheses after it. -/
theorem call?_append (i : Identifier) (cs : List Char) :
    call? (i.chars ++ '(' :: (cs ++ [')'])) = some (i.chars, cs) := by
  obtain ⟨c, name, eq⟩ := List.exists_cons_of_ne_nil i.nonempty
  have start : isNameStart c = true := i.start c (by simp [eq])
  have word : (i.chars ++ '(' :: (cs ++ [')'])).takeWhile isNameChar = i.chars := by
    rw [List.takeWhile_append_of_pos i.rest, List.takeWhile_cons_of_neg (by decide),
      List.append_nil]
  have rest : (i.chars ++ '(' :: (cs ++ [')'])).dropWhile isNameChar = '(' :: (cs ++ [')']) := by
    rw [List.dropWhile_append_of_pos i.rest, List.dropWhile_cons_of_neg (by decide)]
  unfold call?
  rw [word, rest, List.dropWhile_cons_of_neg (by decide), eq]
  simp [start]

end Plc.Ladder.Operand

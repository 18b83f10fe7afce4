/-
Expressions whose tags are found.

The tags of an expression are to be found from left to right, and nothing else.  That goes wrong for
parentheses around a whole operand or argument, for an operand or argument that begins with the mark
of a radix, and for a tag with the name of an operator; and it goes wrong for nothing else.  Two
mistakes do not make up for each other: beside the tags that are there only texts are found that no
tag can have.

* `Formula.isRead` — the formulas without such parts;
* `Formula.filter_inTerms_sublist` — nothing but tags and garbled texts is found;
* `Formula.tags_value` — the right tags are found just in the formulas without such parts;
* `Formula.tags_value_sums` — two of the others.
-/
import Plc.Proofs.Operand.Tags

namespace Plc.Ladder.Operand

open Text

/-- Of two lists that hold nothing new but what does not come in the others, each must be right if
they are right together. -/
theorem append_eq_append_iff {α : Type} (known : α → Bool) {as bs cs ds : List α}
    (left : (as.filter known).Sublist cs) (right : (bs.filter known).Sublist ds)
    (all : ∀ x ∈ cs ++ ds, known x = true) : as ++ bs = cs ++ ds ↔ as = cs ∧ bs = ds := by
  refine ⟨fun same => ?_, fun both => both.1 ▸ both.2 ▸ rfl⟩
  have whole : ∀ x ∈ as ++ bs, known x = true := same ▸ all
  rw [List.filter_eq_self.2 fun x hx => whole x (List.mem_append_left _ hx)] at left
  rw [List.filter_eq_self.2 fun x hx => whole x (List.mem_append_right _ hx)] at right
  have lengths := congrArg List.length same
  rw [List.length_append, List.length_append] at lengths
  have := left.length_le
  have := right.length_le
  exact List.append_inj same (by omega)

namespace Formula

/-- The right tags are found in an operand that is the formula, if they are in its terms. -/
def isReadAlone (e : Formula) (terms : Bool) : Bool :=
  match e with
  | path _ => true
  | paren _ => false
  | _ => if e.isBased then e.bases.isEmpty else terms

/-- The right tags are found in the terms of an expression. -/
def isReadInTerms : Formula → Bool
  | path p => !isWordOperator p.chars
  | decimal _ | based _ => true
  | paren e => e.isReadInTerms
  | call _ e => e.isReadAlone e.isReadInTerms
  | binary l _ r => l.isReadInTerms && r.isReadInTerms

/-- The right tags are found in an operand: neither the formula nor the argument of a call in it is
in parentheses, or begins with the mark of a radix though it mentions tags, and no tag among the
terms has the name of an operator. -/
def isRead (e : Formula) : Bool :=
  e.isReadAlone e.isReadInTerms

theorem front_path (p : Path) : (path p).front = String.ofList p.base.chars := by
  have goes : ∀ c ∈ p.base.chars, (!endsName c) = true := by
    intro c hc
    have name := p.base.rest c hc
    rw [endsName, Bool.not_eq_true', Bool.or_eq_false_iff, Bool.or_eq_false_iff]
    simp only [beq_eq_false_iff_ne]
    refine ⟨⟨?_, ?_⟩, ?_⟩
    · rintro rfl
      cases name
    · rintro rfl
      cases name
    · rintro rfl
      cases name
  have stops : (p.members.flatMap ('.' :: ·)).takeWhile (fun c => !endsName c) = [] := by
    cases p.members with
    | nil => rfl
    | cons m ms => rfl
  rw [front, chars, Path.chars, List.takeWhile_append_of_pos goes, stops, List.append_nil]

/-- The text is no name but begins with a parenthesis. -/
def isGarbled (name : String) : Bool :=
  name.toList.head? == some '('

theorem isGarbled_front (e : Formula) : isGarbled (paren e).front = true := by
  rw [isGarbled, front, String.toList_ofList]
  rfl

theorem not_isGarbled {e : Formula} {name : String} (h : name ∈ e.bases) :
    isGarbled name = false := by
  induction e with
  | path p =>
    obtain rfl := List.mem_singleton.1 h
    rw [isGarbled, String.toList_ofList, beq_eq_false_iff_ne]
    intro opened
    exact absurd (p.base.start _ opened) (by decide)
  | decimal _ | based _ => cases h
  | paren e ih | call f e ih => exact ih h
  | binary l o r ihl ihr =>
    obtain left | right := List.mem_append.1 h
    · exact ihl left
    · exact ihr right

theorem filter_alone_sublist (e : Formula) {terms : List String}
    (h : (terms.filter (!isGarbled ·)).Sublist e.bases) :
    ((e.alone terms).filter (!isGarbled ·)).Sublist e.bases := by
  have based : ((if e.isBased then [] else terms).filter (!isGarbled ·)).Sublist e.bases := by
    split
    · exact List.nil_sublist _
    · exact h
  cases e with
  | path p =>
    rw [alone, front_path]
    exact List.filter_sublist
  | paren e =>
    rw [alone, List.filter_singleton, isGarbled_front]
    exact List.nil_sublist _
  | decimal _ | based _ | call _ _ | binary _ _ _ => exact based

/-- Garbled texts apart, only tags of the formula are found, in their order. -/
theorem filter_inTerms_sublist (e : Formula) :
    (e.inTerms.filter (!isGarbled ·)).Sublist e.bases := by
  induction e with
  | path p =>
    rw [inTerms, front_path]
    split
    · exact List.nil_sublist _
    · exact List.filter_sublist
  | decimal _ | based _ => exact List.nil_sublist _
  | paren e ih => exact ih
  | call f e ih => exact e.filter_alone_sublist ih
  | binary l o r ihl ihr =>
    rw [inTerms, List.filter_append]
    exact ihl.append ihr

theorem alone_eq_bases_iff (e : Formula) {terms : List String} {read : Bool}
    (h : terms = e.bases ↔ read = true) :
    e.alone terms = e.bases ↔ e.isReadAlone read = true := by
  have based : (if e.isBased then [] else terms) = e.bases ↔
      (if e.isBased then e.bases.isEmpty else read) = true := by
    split
    · rw [List.isEmpty_iff, eq_comm]
    · exact h
  cases e with
  | path p => exact iff_of_true (congrArg (fun s => [s]) (front_path p)) rfl
  | paren e =>
    refine iff_of_false (fun same => ?_) Bool.false_ne_true
    have mem : (paren e).front ∈ e.bases := by
      rw [← show [(paren e).front] = e.bases from same]
      exact List.mem_singleton_self _
    have garbled := isGarbled_front e
    rw [not_isGarbled mem] at garbled
    cases garbled
  | decimal _ | based _ | call _ _ | binary _ _ _ => exact based

theorem inTerms_eq_bases_iff (e : Formula) : e.inTerms = e.bases ↔ e.isReadInTerms = true := by
  induction e with
  | path p =>
    cases word : isWordOperator p.chars with
    | true => simp [inTerms, bases, isReadInTerms, word]
    | false => simp [inTerms, bases, isReadInTerms, word, front_path]
  | decimal _ | based _ => exact iff_of_true rfl rfl
  | paren e ih => exact ih
  | call f e ih => exact e.alone_eq_bases_iff ih
  | binary l o r ihl ihr =>
    rw [inTerms, bases, isReadInTerms, Bool.and_eq_true, ← ihl, ← ihr]
    -- what one side misses cannot be made up for by the other, as nothing garbled is a tag
    refine append_eq_append_iff (!isGarbled ·) l.filter_inTerms_sublist r.filter_inTerms_sublist ?_
    intro name hn
    rw [not_isGarbled (e := binary l o r) hn]
    rfl

theorem found_eq_bases_iff (e : Formula) : e.found = e.bases ↔ e.isRead = true :=
  e.alone_eq_bases_iff e.inTerms_eq_bases_iff

/-- An operand that is a formula is classified, and what is found in it is the tags from left to right
just if the formula is read. -/
theorem tags_value (e : Formula) :
    ∃ v, value e.text = .ok v ∧ v.tags = e.found ∧ (v.tags = e.bases ↔ e.isRead = true) := by
  obtain ⟨v, classified, found⟩ := map_eq_ok e.tags_value_found
  refine ⟨v, classified, found, ?_⟩
  rw [found]
  exact e.found_eq_bases_iff

/-- A tag whose name is one letter. -/
def letter (c : Char) (h : isNameStart c = true) : Formula :=
  path {
    base := {
      chars := [c]
      nonempty := List.cons_ne_nil c []
      start := by simpa using h
      rest := by simpa using isNameChar_of_isNameStart h }
    members := []
    plain := List.forall_mem_nil _ }

/-- `16#FF`. -/
def mask : Formula :=
  based ⟨.hexadecimal, ['F', 'F'], by simp; rfl⟩

example :
    (binary (paren (binary (letter 'x' rfl) .minus mask)) .times (letter 'y' rfl)).isRead = true :=
  rfl

/-- A sum in parentheses is taken for one tag, and a sum that begins with `16#` for a number. -/
theorem tags_value_sums :
    (∃ e : Formula, e.text = "(x + y)" ∧ e.bases = ["x", "y"] ∧
      (value e.text).map Value.tags = .ok ["(x + y)"]) ∧
    ∃ e : Formula, e.text = "16#FF + x" ∧ e.bases = ["x"] ∧
      (value e.text).map Value.tags = .ok [] := by
  refine ⟨⟨paren (binary (letter 'x' rfl) .plus (letter 'y' rfl)), by decide +kernel, by decide +kernel, ?_⟩,
    ⟨binary mask .plus (letter 'x' rfl), by decide +kernel, by decide +kernel, ?_⟩⟩
  · rw [tags_value_found]
    exact congrArg Except.ok (by decide +kernel)
  · rw [tags_value_found]
    exact congrArg Except.ok (by decide +kernel)

end Formula

end Plc.Ladder.Operand

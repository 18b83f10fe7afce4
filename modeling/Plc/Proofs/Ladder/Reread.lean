/-
A rung that is written out is read again.

Reading the text of a rung makes the same passes through loops as the reading that gave the rung,
counts the same elements and gives the same rung, up to its places.

* `Rereads` — a rule that reads the text of what it gave;
* `operands_reread`, `branch_rereads`, `elementWithin_rereads`, `series_rereads` — the rules, each
  from those below it;
* `readRung_text` — whole rungs.
-/
import Mathlib.Algebra.GroupWithZero.Nat
import Mathlib.Algebra.Order.BigOperators.Group.List
import Mathlib.Algebra.Order.Group.Nat
import Plc.Proofs.Ladder.Printed

namespace Plc.Ladder

open Text

namespace RungRule

variable {l : Limits} {c c' d : Cursor}

/-- A rule passes over the text of what it gives, and the second rule reads it from that text alone:
with the same passes and elements counted it gives the same, and counts as many again. -/
def Rereads {α : Type} (l : Limits) (r r' : RungRule α) (text : α → List Char)
    (alike : α → α → Prop) (ready : List Char → Prop) : Prop :=
  ∀ ⦃c a c'⦄, r l c = .ok a c' →
    (∃ passed, c.rest = passed ++ c'.rest ∧ (text a).Sublist passed) ∧
    ∀ d tail, ready tail → d.rest = text a ++ tail → d.passes = c.passes → d.usage = c.usage →
      ∃ b d', r' l d = .ok b d' ∧ alike a b ∧ d'.rest = tail ∧ d'.passes = c'.passes ∧
        d'.usage = c'.usage

/-! ### Instructions -/

theorem operands_ne_nil {opening left size : Nat} {xs : List Operand}
    (h : operands opening left size l c = .ok xs c') : xs ≠ [] := by
  cases left with
  | zero => cases h
  | succ left =>
    obtain ⟨-, x, c₁, -, -, ⟨ys, -, -, rfl⟩ | ⟨-, rfl, -⟩⟩ := operands_eq_ok_iff.1 h
    · exact List.cons_ne_nil _ _
    · exact List.cons_ne_nil _ _

/-- The operands of an instruction begin neither with a blank nor with the closing parenthesis. -/
theorem operands_begin {opening left size : Nat} {xs : List Operand}
    (h : operands opening left size l c = .ok xs c') :
    ∃ a as, operandsChars xs = a :: as ∧ isBlank a = false ∧ a ≠ ')' := by
  cases left with
  | zero => cases h
  | succ left =>
    obtain ⟨-, x, c₁, one, -, next⟩ := operands_eq_ok_iff.1 h
    -- An operand that more follows begins with no blank, whatever its text.
    have more : c₁.rest ≠ [] := by
      rcases next with ⟨_, comma, -⟩ | ⟨paren, -⟩
      · exact fun none_ => by simp [none_] at comma
      · exact fun none_ => by simp [none_] at paren
    obtain ⟨a, as, begins, blank, ends⟩ := operand_begins one more
    have other : a ≠ ')' := by
      rintro rfl
      cases ends
    have text : ∃ bs, operandsChars xs = x.text.toList ++ bs := by
      rcases next with ⟨ys, -, others, rfl⟩ | ⟨-, rfl, -⟩
      · obtain ⟨y, ys, rfl⟩ := List.exists_cons_of_ne_nil (operands_ne_nil others)
        exact ⟨_, rfl⟩
      · exact ⟨_, rfl⟩
    obtain ⟨bs, text⟩ := text
    exact ⟨a, as ++ bs, by rw [text, begins, List.cons_append], blank, other⟩

/-- The operands of an instruction. -/
theorem operands_reread (opening opening' left size : Nat) :
    Rereads l (operands opening left size) (operands opening' left size) operandsChars Eq
      fun _ => True := by
  -- Induction on the passes that are left, with any number of operands read before.
  induction left generalizing size with
  | zero =>
    intro c xs c' h
    cases h
  | succ left ih =>
    intro c xs c' h
    obtain ⟨within, x, c₁, one, few, next⟩ := operands_eq_ok_iff.1 h
    obtain ⟨passes, usage, -⟩ := operand_ok one
    -- After one operand come a comma and more of them, or the closing parenthesis.
    rcases next with ⟨ys, comma, others, rfl⟩ | ⟨paren, rfl, rfl⟩
    · have after := Cursor.rest_eq_cons comma
      have more : c₁.rest ≠ [] := by rw [after]; exact List.cons_ne_nil _ _
      obtain ⟨-, passed, parts, sub⟩ := operand_sound one more
      obtain ⟨⟨passed', parts', sub'⟩, again⟩ := ih (size + 1) others
      have text : operandsChars (x :: ys) = x.text.toList ++ ',' :: operandsChars ys := by
        obtain ⟨y, ys, rfl⟩ := List.exists_cons_of_ne_nil (operands_ne_nil others)
        rfl
      rw [text]
      refine ⟨⟨passed ++ ',' :: passed', ?_, sub.append (sub'.cons_cons _)⟩, ?_⟩
      · rw [List.append_assoc, List.cons_append, ← parts', ← after]
        exact parts
      -- The same steps in the text that was printed; only the places differ.
      · intro d tail _ hd same_passes same_usage
        rw [List.append_assoc, List.cons_append] at hd
        have first := operand_again (d := d.counted) one more (e := ',') rfl hd
        have at_comma : (d.counted.past x.text.toList.length).rest =
            ',' :: (operandsChars ys ++ tail) := by
          rw [Cursor.past_rest, Cursor.counted_rest, hd, List.drop_left]
        obtain ⟨b, d', run, rfl, rest, counts⟩ :=
          again ((d.counted.past x.text.toList.length).past 1) tail trivial
            (by rw [Cursor.past_rest, at_comma]; rfl) (by simp [same_passes, passes])
            (by simp [same_usage, usage])
        refine ⟨x :: ys, d', operands_eq_ok_iff.2 ⟨by rw [same_passes]; exact within, x, _, first,
          few, .inl ⟨ys, by rw [at_comma]; rfl, run, rfl⟩⟩, rfl, rest, counts⟩
    · have after := Cursor.rest_eq_cons paren
      have more : c₁.rest ≠ [] := by rw [after]; exact List.cons_ne_nil _ _
      obtain ⟨-, passed, parts, sub⟩ := operand_sound one more
      show (∃ _, _) ∧ _
      refine ⟨⟨passed ++ [')'], ?_, sub.append (List.Sublist.refl _)⟩, ?_⟩
      · rw [List.append_assoc, List.singleton_append, ← after]
        exact parts
      · intro d tail _ hd same_passes same_usage
        have text : operandsChars [x] = x.text.toList ++ [')'] := rfl
        rw [text, List.append_assoc, List.singleton_append] at hd
        have first := operand_again (d := d.counted) one more (e := ')') rfl hd
        have at_paren : (d.counted.past x.text.toList.length).rest = ')' :: tail := by
          rw [Cursor.past_rest, Cursor.counted_rest, hd, List.drop_left]
        refine ⟨[x], _, operands_eq_ok_iff.2 ⟨by rw [same_passes]; exact within, x, _, first, few,
          .inr ⟨by rw [at_paren]; rfl, rfl, rfl⟩⟩, rfl, ?_, ?_, ?_⟩
        · rw [Cursor.past_rest, at_paren]
          rfl
        · simp [same_passes, passes]
        · simp [same_usage, usage]

/-- What stands between the parentheses of an instruction. -/
theorem arguments_reread (opening opening' : Nat) :
    Rereads l (arguments opening) (arguments opening') operandsChars Eq fun _ => True := by
  intro c xs c' h
  rcases arguments_eq_ok_iff.1 h with ⟨paren, rfl, rfl⟩ | ⟨-, others⟩
  · refine ⟨⟨[')'], Cursor.rest_eq_cons paren, List.Sublist.refl _⟩, ?_⟩
    intro d tail _ hd same_passes same_usage
    refine ⟨[], d.past 1, arguments_eq_ok_iff.2 (.inl ⟨by rw [hd]; rfl, rfl, rfl⟩), rfl, ?_,
      same_passes, same_usage⟩
    rw [Cursor.past_rest, hd]
    rfl
  · obtain ⟨front, again⟩ := operands_reread (l := l) opening opening' _ _ others
    -- What is printed for operands does not look like an empty list.
    obtain ⟨a, as, begins, -, other⟩ := operands_begin others
    refine ⟨front, fun d tail ready hd same_passes same_usage => ?_⟩
    obtain ⟨b, d', run, rest⟩ := again d tail ready hd same_passes same_usage
    refine ⟨b, d', arguments_eq_ok_iff.2 (.inr ⟨?_, run⟩), rest⟩
    rw [hd, begins]
    simpa using other

/-- No blank comes first between the parentheses. -/
theorem arguments_begin {opening : Nat} {xs : List Operand}
    (h : arguments opening l c = .ok xs c') :
    ∃ a as, operandsChars xs = a :: as ∧ isBlank a = false := by
  rcases arguments_eq_ok_iff.1 h with ⟨-, rfl, -⟩ | ⟨-, others⟩
  · exact ⟨')', [], rfl, rfl⟩
  · obtain ⟨a, as, begins, blank, -⟩ := operands_begin others
    exact ⟨a, as, begins, blank⟩

/-- Two elements are the same up to their places. -/
def Alike (e e' : Element) : Prop := e'.bare = e.bare

/-- An instruction. -/
theorem instruction_rereads :
    Rereads l instruction instruction (fun e => e.text.toList) Alike fun _ => True := by
  intro c e c' h
  obtain ⟨paren, xs, c₁, span, args, counted, rfl⟩ := instruction_eq_ok_iff.1 h
  obtain ⟨rfl, few, rfl⟩ := element_eq_ok_iff.1 counted
  have after := Cursor.rest_eq_cons paren
  have name := List.takeWhile_append_dropWhile (p := isNameChar) (l := c.rest)
  rw [← Cursor.pastName_rest, after] at name
  show (∃ _, _ ∧ (Instruction.text _).toList.Sublist _) ∧ ∀ _ _, _ → _ = (Instruction.text _).toList ++ _ → _
  rw [Instruction.toList_text, String.toList_ofList]
  -- What is passed over is the printed text with blanks after the parenthesis.
  constructor
  · obtain ⟨passed, parts, sub⟩ := (arguments_reread (l := l) _ 0 args).1
    have blanks := List.takeWhile_append_dropWhile (p := isBlank) (l := (c.pastName.past 1).rest)
    rw [← Cursor.pastBlanks_rest, parts] at blanks
    refine ⟨c.rest.takeWhile isNameChar ++ '(' ::
      ((c.pastName.past 1).rest.takeWhile isBlank ++ passed), ?_, ?_⟩
    · rw [List.append_assoc, List.cons_append, List.append_assoc]
      show c.rest = _ ++ '(' :: (_ ++ (_ ++ c₁.rest))
      rw [blanks]
      exact name.symm
    · exact (List.Sublist.refl _).append
        ((List.sublist_append_of_sublist_right sub).cons_cons _)
  · intro d tail _ hd same_passes same_usage
    rw [List.append_assoc, List.cons_append] at hd
    -- The name ends at the parenthesis in both texts.
    have letters : ∀ a ∈ c.rest.takeWhile isNameChar, isNameChar a = true :=
      fun a ha => List.mem_takeWhile_imp ha
    have same_name : d.rest.takeWhile isNameChar = c.rest.takeWhile isNameChar := by
      rw [hd, List.takeWhile_append_of_pos letters]
      simp [isNameChar, isNameStart, isAsciiDigit]
    have at_paren : d.pastName.rest = '(' :: (operandsChars xs ++ tail) := by
      rw [Cursor.pastName_rest, hd, List.dropWhile_append_of_pos letters]
      simp [isNameChar, isNameStart, isAsciiDigit]
    have inner : (d.pastName.past 1).rest = operandsChars xs ++ tail := by
      rw [Cursor.past_rest, at_paren]
      rfl
    obtain ⟨a, as, begins, blank⟩ := arguments_begin args
    -- Nothing blank is printed behind the parenthesis, so no blanks are passed over.
    have no_blanks : (d.pastName.past 1).pastBlanks = d.pastName.past 1 := by
      refine Cursor.pastBlanks_eq_self ?_
      rw [inner, begins]
      simpa using blank
    obtain ⟨b, d', run, rfl, rest, passes, usage⟩ := (arguments_reread _ d.pastName.position args).2
      (d.pastName.past 1) tail trivial inner same_passes same_usage
    refine ⟨_, _, instruction_eq_ok_iff.2 ⟨by rw [at_paren]; rfl, xs, d', _,
      by rw [no_blanks]; exact run, element_eq_ok_iff.2 ⟨rfl, by rw [usage]; exact few, rfl⟩, rfl⟩,
      ?_, rest, passes, by rw [usage]⟩
    show Element.bare _ = Element.bare _
    rw [same_name]
    rfl

/-! ### Groups -/

/-- What a rule for elements gives begins with a bracket or a letter. -/
def Begins (l : Limits) (item : RungRule Element) : Prop :=
  ∀ ⦃c e c'⦄, item l c = .ok e c' →
    ∃ a as, e.text.toList = a :: as ∧ (a = '[' ∨ isNameStart a = true)

/-- The first character of an element is neither a blank nor a mark after elements. -/
theorem plain_of_begins {a : Char} (h : a = '[' ∨ isNameStart a = true) :
    isBlank a = false ∧ a ≠ ',' ∧ a ≠ ']' ∧ a ≠ ';' := by
  rcases h with rfl | letter
  · decide
  · obtain ⟨blank, -, rest⟩ := plain_of_isNameStart letter
    exact ⟨blank, rest⟩

/-- Two series are the same up to their places. -/
def SeriesAlike (es es' : List Element) : Prop := Element.bareSeries es' = Element.bareSeries es

/-- The text goes on with the end of a branch. -/
def AtBranchEnd (tail : List Char) : Prop := tail.head? = some ',' ∨ tail.head? = some ']'

theorem AtBranchEnd.not_blank {tail : List Char} (h : AtBranchEnd tail) :
    ∀ a ∈ tail.head?, isBlank a = false := by
  intro a ha
  rcases h with comma | bracket
  · obtain rfl : a = ',' := Option.some.inj (ha.symm.trans comma)
    rfl
  · obtain rfl : a = ']' := Option.some.inj (ha.symm.trans bracket)
    rfl

theorem toList_seriesText_cons (e : Element) (es : List Element) :
    (Element.seriesText (e :: es)).toList = e.text.toList ++ (Element.seriesText es).toList := by
  rw [Element.seriesText, String.toList_append]

variable {item : RungRule Element}

/-- The elements of a branch. -/
theorem branch_rereads (reads : Rereads l item item (fun e => e.text.toList) Alike fun _ => True)
    (begins : Begins l item) (opening opening' left size : Nat) :
    Rereads l (branch item opening left size) (branch item opening' left size)
      (fun es => (Element.seriesText es).toList) SeriesAlike AtBranchEnd := by
  -- Induction on the passes that are left.
  induction left generalizing size with
  | zero =>
    intro c es c' h
    cases h
  | succ left ih =>
    intro c es c' h
    have blanks := List.takeWhile_append_dropWhile (p := isBlank) (l := c.rest)
    obtain ⟨within, ⟨ends, some, rfl, rfl⟩ | ⟨next, goes, e, c₁, es, one, few, others, rfl⟩⟩ :=
      branch_eq_ok_iff.1 h
    · refine ⟨⟨c.rest.takeWhile isBlank, ?_, List.nil_sublist _⟩, ?_⟩
      · rw [Cursor.pastBlanks_rest]
        exact blanks.symm
      · intro d tail ready hd same_passes same_usage
        -- What follows a printed branch is no blank, so the end of the branch is seen at once.
        have start : d.counted.pastBlanks = d.counted :=
          Cursor.pastBlanks_eq_self (by rw [Cursor.counted_rest, hd]; exact ready.not_blank)
        refine ⟨[], d.counted, branch_eq_ok_iff.2 ⟨by rw [same_passes]; exact within, .inl
          ⟨?_, some, rfl, start.symm⟩⟩, rfl, hd, by simp [same_passes], same_usage⟩
        rw [start, Cursor.counted_rest, hd]
        exact ready
    · obtain ⟨⟨passed, parts, sub⟩, again⟩ := reads one
      obtain ⟨⟨passed', parts', sub'⟩, again'⟩ := ih (size + 1) others
      -- A printed element begins with no blank and with no sign that ends the branch.
      obtain ⟨a, as, first, opens⟩ := begins one
      obtain ⟨blank, comma, bracket, -⟩ := plain_of_begins opens
      simp only [toList_seriesText_cons]
      refine ⟨⟨c.rest.takeWhile isBlank ++ (passed ++ passed'), ?_, ?_⟩, ?_⟩
      · rw [List.append_assoc, List.append_assoc, ← parts', ← parts, Cursor.pastBlanks_rest]
        exact blanks.symm
      · exact List.sublist_append_of_sublist_right (sub.append sub')
      · intro d tail ready hd same_passes same_usage
        rw [List.append_assoc] at hd
        have head : d.counted.rest.head? = some a := by rw [Cursor.counted_rest, hd, first]; rfl
        have start : d.counted.pastBlanks = d.counted :=
          Cursor.pastBlanks_eq_self (by rw [head]; simpa using blank)
        obtain ⟨b, d₁, run, alike, rest, passes, usage⟩ :=
          again d.counted _ trivial hd (by simp [same_passes]) same_usage
        obtain ⟨bs, d', run', alike', counts⟩ := again' d₁ tail ready rest passes usage
        refine ⟨b :: bs, d', branch_eq_ok_iff.2 ⟨by rw [same_passes]; exact within, .inr
          ⟨by rw [start, head]; exact nofun, ?_, b, d₁, bs, by rw [start]; exact run, few, run',
            rfl⟩⟩, ?_, counts⟩
        · rw [start, head]
          simp [comma, bracket]
        · show _ :: _ = _ :: _
          rw [show b.bare = e.bare from alike,
            show Element.bareSeries bs = Element.bareSeries es from alike']

/-- Two lists of branches are the same up to their places. -/
def BranchesAlike (bs bs' : List (List Element)) : Prop :=
  Element.bareBranches bs' = Element.bareBranches bs

theorem branchesChars_cons (b : List Element) (bs : List (List Element)) :
    branchesChars (b :: bs) = ',' :: ((Element.seriesText b).toList ++ branchesChars bs) := by
  rw [branchesChars, List.flatMap_cons, List.cons_append, List.cons_append, List.append_assoc]
  rfl

theorem atBranchEnd_branchesChars (bs : List (List Element)) (tail : List Char) :
    AtBranchEnd (branchesChars bs ++ tail) := by
  cases bs with
  | nil => exact .inr rfl
  | cons b bs =>
    rw [branchesChars_cons]
    exact .inl rfl

/-- The branches of a group after the first. -/
theorem branches_reread (reads : Rereads l item item (fun e => e.text.toList) Alike fun _ => True)
    (begins : Begins l item) (opening opening' left size : Nat) :
    Rereads l (branches item opening left size) (branches item opening' left size) branchesChars
      BranchesAlike fun _ => True := by
  -- Induction on the passes that are left; a branch behind the first one is printed with the comma
  -- in front.
  induction left generalizing size with
  | zero =>
    intro c bs c' h
    cases h
  | succ left ih =>
    intro c bs c' h
    have blanks := List.takeWhile_append_dropWhile (p := isBlank) (l := c.rest)
    obtain ⟨within, ⟨bracket, rfl, rfl⟩ | ⟨comma, b, c₁, bs, one, few, others, rfl⟩⟩ :=
      branches_eq_ok_iff.1 h
    · have after := Cursor.rest_eq_cons bracket
      rw [Cursor.pastBlanks_rest, Cursor.counted_rest] at after
      refine ⟨⟨c.rest.takeWhile isBlank ++ [']'], ?_, List.sublist_append_right _ _⟩, ?_⟩
      · rw [List.append_assoc, List.singleton_append, ← after]
        exact blanks.symm
      · intro d tail _ hd same_passes same_usage
        have head : d.counted.rest.head? = some ']' := by rw [Cursor.counted_rest, hd]; rfl
        have start : d.counted.pastBlanks = d.counted :=
          Cursor.pastBlanks_eq_self (by rw [head]; rintro _ ⟨⟩; rfl)
        refine ⟨[], d.counted.past 1, branches_eq_ok_iff.2 ⟨by rw [same_passes]; exact within, .inl
          ⟨by rw [start]; exact head, rfl, by rw [start]⟩⟩, rfl, ?_, by simp [same_passes],
          same_usage⟩
        rw [Cursor.past_rest, Cursor.counted_rest, hd]
        rfl
    · have after := Cursor.rest_eq_cons comma
      rw [Cursor.pastBlanks_rest, Cursor.counted_rest] at after
      obtain ⟨⟨passed, parts, sub⟩, again⟩ :=
        branch_rereads reads begins opening opening' l.maxIterations 0 one
      obtain ⟨⟨passed', parts', sub'⟩, again'⟩ := ih (size + 1) others
      rw [branchesChars_cons]
      refine ⟨⟨c.rest.takeWhile isBlank ++ ',' :: (passed ++ passed'), ?_, ?_⟩, ?_⟩
      · rw [List.append_assoc, List.cons_append, List.append_assoc, ← parts', ← parts, ← after]
        exact blanks.symm
      · exact List.sublist_append_of_sublist_right ((sub.append sub').cons_cons _)
      · intro d tail _ hd same_passes same_usage
        rw [List.cons_append, List.append_assoc] at hd
        have head : d.counted.rest.head? = some ',' := by rw [Cursor.counted_rest, hd]; rfl
        have start : d.counted.pastBlanks = d.counted :=
          Cursor.pastBlanks_eq_self (by rw [head]; rintro _ ⟨⟩; rfl)
        -- The branch is followed by a comma or by the closing bracket, so it ends where it did.
        obtain ⟨b', d₁, run, alike, rest, passes, usage⟩ :=
          again (d.counted.past 1) _ (atBranchEnd_branchesChars bs tail)
            (by rw [Cursor.past_rest, Cursor.counted_rest, hd]; rfl) (by simp [same_passes])
            same_usage
        obtain ⟨bs', d', run', alike', counts⟩ := again' d₁ tail trivial rest passes usage
        refine ⟨b' :: bs', d', branches_eq_ok_iff.2 ⟨by rw [same_passes]; exact within, .inr
          ⟨by rw [start]; exact head, b', d₁, bs', by rw [start]; exact run, few, run', rfl⟩⟩, ?_,
          counts⟩
        show _ :: _ = _ :: _
        rw [show Element.bareSeries b' = Element.bareSeries b from alike,
          show Element.bareBranches bs' = Element.bareBranches bs from alike']

/-- A group. -/
theorem parallel_rereads (reads : Rereads l item item (fun e => e.text.toList) Alike fun _ => True)
    (begins : Begins l item) {c : Cursor} {e : Element} {c' : Cursor} (bracket : c.rest.head? = some '[')
    (h : parallel item l c = .ok e c') :
    (∃ passed, c.rest = passed ++ c'.rest ∧ e.text.toList.Sublist passed) ∧
    ∀ d tail, d.rest = e.text.toList ++ tail → d.passes = c.passes → d.usage = c.usage →
      ∃ e' d', parallel item l d = .ok e' d' ∧ Alike e e' ∧ d'.rest = tail ∧
        d'.passes = c'.passes ∧ d'.usage = c'.usage := by
  obtain ⟨shallow, b, c₁, bs, c₂, span, one, others, counted, rfl⟩ := parallel_eq_ok_iff.1 h
  obtain ⟨rfl, few, rfl⟩ := element_eq_ok_iff.1 counted
  have after := Cursor.rest_eq_cons bracket
  rw [Element.toList_parallel]
  -- The bracket comes first, then the branch that is always there, then the others.
  constructor
  · obtain ⟨passed, parts, sub⟩ := (branch_rereads reads begins _ 0 _ _ one).1
    obtain ⟨passed', parts', sub'⟩ := (branches_reread reads begins _ 0 _ _ others).1
    refine ⟨'[' :: (passed ++ passed'), ?_, (sub.append sub').cons_cons _⟩
    show c.rest = '[' :: (passed ++ passed' ++ c₂.rest)
    rw [List.append_assoc, ← parts', ← parts]
    exact after
  · intro d tail hd same_passes same_usage
    rw [List.cons_append, List.append_assoc] at hd
    obtain ⟨b', d₁, run, alike, rest, passes, usage⟩ :=
      (branch_rereads reads begins _ d.position _ _ one).2
        { d.past 1 with usage := d.usage.enter } _ (atBranchEnd_branchesChars bs tail)
        (by show (d.past 1).rest = _; rw [Cursor.past_rest, hd]; rfl) same_passes
        (by rw [same_usage])
    obtain ⟨bs', d', run', alike', rest', passes', usage'⟩ :=
      (branches_reread reads begins _ d.position _ _ others).2 d₁ tail trivial rest passes usage
    refine ⟨_, _, parallel_eq_ok_iff.2 ⟨by rw [same_usage]; exact shallow, b', d₁, bs', d', _, run,
      run', element_eq_ok_iff.2 ⟨rfl, by rw [usage']; exact few, rfl⟩, rfl⟩, ?_, rest', passes', ?_⟩
    · show Element.parallel _ (_ :: _) = Element.parallel _ (_ :: _)
      rw [show Element.bareSeries b' = Element.bareSeries b from alike,
        show Element.bareBranches bs' = Element.bareBranches bs from alike']
    · show d'.usage.leave.addNode = c₂.usage.leave.addNode
      rw [usage']

/-! ### Elements and rungs -/

theorem tooDeep_ne_ok {e : Element} : (tooDeep : RungRule Element) l c ≠ .ok e c' := nofun

/-- An instruction that begins with a letter is written with that letter first. -/
theorem instruction_begins {e : Element} {a : Char} (head : c.rest.head? = some a)
    (letter : isNameStart a = true) (h : instruction l c = .ok e c') :
    ∃ as, e.text.toList = a :: as := by
  obtain ⟨-, xs, c₁, span, -, -, rfl⟩ := instruction_eq_ok_iff.1 h
  show ∃ as, (Instruction.text _).toList = a :: as
  rw [Instruction.toList_text, String.toList_ofList, Cursor.rest_eq_cons head,
    List.takeWhile_cons_of_pos (isNameChar_of_isNameStart letter)]
  exact ⟨_, rfl⟩

/-- Elements in which groups are nested so deep at most. -/
theorem elementWithin_rereads (levels : Nat) :
    Rereads l (elementWithin levels) (elementWithin levels) (fun e => e.text.toList) Alike
        (fun _ => True) ∧
      Begins l (elementWithin levels) := by
  -- a rule for groups that is put in the place of the nested one
  suffices layer : ∀ group : RungRule Element,
      (∀ ⦃c e c'⦄, c.rest.head? = some '[' → group l c = .ok e c' →
        (∃ as, e.text.toList = '[' :: as) ∧
        (∃ passed, c.rest = passed ++ c'.rest ∧ e.text.toList.Sublist passed) ∧
        ∀ d tail, d.rest = e.text.toList ++ tail → d.passes = c.passes → d.usage = c.usage →
          ∃ e' d', group l d = .ok e' d' ∧ Alike e e' ∧ d'.rest = tail ∧ d'.passes = c'.passes ∧
            d'.usage = c'.usage) →
      Rereads l (elementOr group) (elementOr group) (fun e => e.text.toList) Alike
          (fun _ => True) ∧
        Begins l (elementOr group) by
    induction levels with
    | zero => exact layer _ fun c e c' _ h => absurd h tooDeep_ne_ok
    | succ below ih =>
      refine layer _ fun c e c' bracket h => ⟨?_, parallel_rereads ih.1 ih.2 bracket h⟩
      obtain ⟨-, b, _, bs, _, _, -, -, -, rfl⟩ := parallel_eq_ok_iff.1 h
      exact ⟨_, Element.toList_parallel _ b bs⟩
  intro group groups
  constructor
  -- The first character is printed again, so it decides the same way.
  · intro c e c' h
    obtain ⟨a, head, ⟨rfl, h⟩ | ⟨other, letter, h⟩⟩ := elementOr_eq_ok_iff.1 h
    · obtain ⟨⟨as, opens⟩, front, again⟩ := groups head h
      refine ⟨front, fun d tail _ hd same_passes same_usage => ?_⟩
      obtain ⟨e', d', run, rest⟩ := again d tail hd same_passes same_usage
      refine ⟨e', d', elementOr_eq_ok_iff.2 ⟨'[', ?_, .inl ⟨rfl, run⟩⟩, rest⟩
      rw [show d.rest = e.text.toList ++ tail from hd, opens]
      rfl
    · obtain ⟨front, again⟩ := instruction_rereads h
      obtain ⟨as, opens⟩ := instruction_begins head letter h
      refine ⟨front, fun d tail ready hd same_passes same_usage => ?_⟩
      obtain ⟨e', d', run, rest⟩ := again d tail ready hd same_passes same_usage
      refine ⟨e', d', elementOr_eq_ok_iff.2 ⟨a, ?_, .inr ⟨other, letter, run⟩⟩, rest⟩
      rw [show d.rest = e.text.toList ++ tail from hd, opens]
      rfl
  · intro c e c' h
    obtain ⟨a, head, ⟨rfl, h⟩ | ⟨-, letter, h⟩⟩ := elementOr_eq_ok_iff.1 h
    · obtain ⟨⟨as, opens⟩, -⟩ := groups head h
      exact ⟨'[', as, opens, .inl rfl⟩
    · obtain ⟨as, opens⟩ := instruction_begins head letter h
      exact ⟨a, as, opens, .inr letter⟩

/-- The characters of a series of elements and the semicolon after it. -/
def seriesChars (es : List Element) : List Char := (Element.seriesText es).toList ++ [';']

theorem seriesChars_cons (e : Element) (es : List Element) :
    seriesChars (e :: es) = e.text.toList ++ seriesChars es := by
  rw [seriesChars, toList_seriesText_cons, List.append_assoc]
  rfl

/-- The elements of a rung. -/
theorem series_rereads (left size : Nat) :
    Rereads l (series left size) (series left size) seriesChars SeriesAlike fun _ => True := by
  -- Induction on the passes that are left, as for a branch, but the series ends with its semicolon.
  induction left generalizing size with
  | zero =>
    intro c es c' h
    cases h
  | succ left ih =>
    intro c es c' h
    have blanks := List.takeWhile_append_dropWhile (p := isBlank) (l := c.rest)
    obtain ⟨within, ⟨semicolon, rfl, rfl⟩ | ⟨-, -, e, c₁, es, one, few, others, rfl⟩⟩ :=
      series_eq_ok_iff.1 h
    · have after := Cursor.rest_eq_cons semicolon
      rw [Cursor.pastBlanks_rest, Cursor.counted_rest] at after
      refine ⟨⟨c.rest.takeWhile isBlank ++ [';'], ?_, List.sublist_append_right _ _⟩, ?_⟩
      · rw [List.append_assoc, List.singleton_append, ← after]
        exact blanks.symm
      · intro d tail _ hd same_passes same_usage
        have head : d.counted.rest.head? = some ';' := by rw [Cursor.counted_rest, hd]; rfl
        have start : d.counted.pastBlanks = d.counted :=
          Cursor.pastBlanks_eq_self (by rw [head]; rintro _ ⟨⟩; rfl)
        refine ⟨[], d.counted.past 1, series_eq_ok_iff.2 ⟨by rw [same_passes]; exact within, .inl
          ⟨by rw [start]; exact head, rfl, by rw [start]⟩⟩, rfl, ?_, by simp [same_passes],
          same_usage⟩
        rw [Cursor.past_rest, Cursor.counted_rest, hd]
        rfl
    -- The first element is printed without blanks in front and is not taken for the semicolon.
    · obtain ⟨reads, begins⟩ := elementWithin_rereads (l := l) l.maxDepth
      obtain ⟨⟨passed, parts, sub⟩, again⟩ := reads one
      obtain ⟨⟨passed', parts', sub'⟩, again'⟩ := ih (size + 1) others
      obtain ⟨a, as, first, opens⟩ := begins one
      obtain ⟨blank, -, -, semicolon⟩ := plain_of_begins opens
      rw [seriesChars_cons]
      refine ⟨⟨c.rest.takeWhile isBlank ++ (passed ++ passed'), ?_, ?_⟩, ?_⟩
      · rw [List.append_assoc, List.append_assoc, ← parts', ← parts, Cursor.pastBlanks_rest]
        exact blanks.symm
      · exact List.sublist_append_of_sublist_right (sub.append sub')
      · intro d tail _ hd same_passes same_usage
        rw [List.append_assoc] at hd
        have head : d.counted.rest.head? = some a := by rw [Cursor.counted_rest, hd, first]; rfl
        have start : d.counted.pastBlanks = d.counted :=
          Cursor.pastBlanks_eq_self (by rw [head]; simpa using blank)
        obtain ⟨b, d₁, run, alike, rest, passes, usage⟩ :=
          again d.counted _ trivial hd (by simp [same_passes]) same_usage
        obtain ⟨bs, d', run', alike', counts⟩ := again' d₁ tail trivial rest passes usage
        refine ⟨b :: bs, d', series_eq_ok_iff.2 ⟨by rw [same_passes]; exact within, .inr
          ⟨?_, by rw [start, head]; exact nofun, b, d₁, bs, by rw [start]; exact run, few, run',
            rfl⟩⟩, ?_, counts⟩
        · rw [start, head]
          simpa using semicolon
        · show _ :: _ = _ :: _
          rw [show b.bare = e.bare from alike,
            show Element.bareSeries bs = Element.bareSeries es from alike']

theorem Rung.toList_text (r : Rung) : r.text.toList = seriesChars r.elements := by
  rw [Rung.text, String.toList_append]
  rfl

/-- A whole rung. -/
theorem rung_rereads {source : List Char} {r : Rung} (h : rung l { rest := source } = .ok r c') :
    r.text.toList.Sublist source ∧
      ∃ r' d', rung l { rest := r.text.toList } = .ok r' d' ∧ r'.bare = r.bare := by
  obtain ⟨-, es, c₁, all, -, rfl, rfl⟩ := rung_eq_ok_iff.1 h
  obtain ⟨⟨passed, parts, sub⟩, again⟩ := series_rereads _ _ all
  have blanks := List.takeWhile_append_dropWhile (p := isBlank) (l := source)
  rw [Rung.toList_text]
  constructor
  · rw [← blanks]
    refine List.sublist_append_of_sublist_right ?_
    rw [← Cursor.pastBlanks_rest ⟨source, 0, 0, {}⟩, parts]
    exact List.sublist_append_of_sublist_left sub
  -- the text begins with no blank: with its first element, or with the semicolon
  have start : ∃ a as, seriesChars es = a :: as ∧ isBlank a = false := by
    cases passes : l.maxIterations with
    | zero =>
      rw [passes] at all
      cases all
    | succ left =>
      rw [passes] at all
      obtain ⟨-, ⟨-, rfl, -⟩ | ⟨-, -, e, c₂, es, one, -, -, rfl⟩⟩ := series_eq_ok_iff.1 all
      · exact ⟨';', [], rfl, rfl⟩
      · obtain ⟨a, as, first, opens⟩ := (elementWithin_rereads l.maxDepth).2 one
        exact ⟨a, as ++ seriesChars es, by rw [seriesChars_cons, first, List.cons_append],
          (plain_of_begins opens).1⟩
  obtain ⟨a, as, first, blank⟩ := start
  obtain ⟨es', d', run, alike, rest, -⟩ := again { rest := seriesChars es } [] trivial
    (List.append_nil _).symm rfl rfl
  have no_blanks : Cursor.pastBlanks { rest := seriesChars es } = { rest := seriesChars es } :=
    Cursor.pastBlanks_eq_self (by show ∀ _ ∈ (seriesChars es).head?, _; rw [first]; simpa using blank)
  refine ⟨⟨es'⟩, d'.pastBlanks, rung_eq_ok_iff.2 ⟨?_, es', d', ?_, ?_, rfl, rfl⟩,
    congrArg Rung.mk alike⟩
  · rw [no_blanks]
    show (seriesChars es).head? ≠ none
    rw [first]
    exact nofun
  · rw [no_blanks]
    exact run
  · rw [Cursor.pastBlanks_rest, rest]
    rfl

end RungRule

/-! ### Whole rungs -/

theorem utf8Size_eq_sum (cs : List Char) : utf8Size cs = (cs.map Char.utf8Size).sum := by
  rw [utf8Size, List.sum_eq_foldl, List.foldl_map]

/-- A part of a text is no longer in bytes. -/
theorem utf8Size_le_of_sublist {cs ds : List Char} (h : cs.Sublist ds) :
    utf8Size cs ≤ utf8Size ds := by
  rw [utf8Size_eq_sum, utf8Size_eq_sum]
  exact (h.map Char.utf8Size).sum_le_sum fun _ _ => Nat.zero_le _

/-- The rung that a text is, in terms of its rule. -/
theorem readRung_eq_ok_iff {source : List Char} {l : Limits} {r : Rung} :
    readRung source l = .ok r ↔
      utf8Size source ≤ l.maxInputSize ∧ ∃ c, RungRule.rung l { rest := source } = .ok r c := by
  unfold readRung
  cases checked : l.check .inputSize (utf8Size source) with
  | error e =>
    constructor
    · rintro ⟨⟩
    · rintro ⟨small, -⟩
      rw [Limits.check_eq_ok_iff.2 small] at checked
      cases checked
  | ok _ =>
    have small := Limits.check_eq_ok_iff.1 checked
    dsimp only
    cases run : RungRule.rung l { rest := source } with
    | error e c =>
      constructor
      · rintro ⟨⟩
      · rintro ⟨-, c', other⟩
        cases other
    | ok r' c =>
      constructor
      · rintro ⟨⟩
        exact ⟨small, c, rfl⟩
      · rintro ⟨-, c', same⟩
        cases same
        rfl

/-- The text of a rung that was read is read under the same limits, and as the same rung up to its
places. -/
theorem readRung_text {source : List Char} {l : Limits} {r : Rung} (h : readRung source l = .ok r) :
    ∃ r', readRung r.text.toList l = .ok r' ∧ r'.bare = r.bare ∧ r'.text = r.text := by
  obtain ⟨small, c, run⟩ := readRung_eq_ok_iff.1 h
  obtain ⟨sub, r', d, again, alike⟩ := RungRule.rung_rereads run
  refine ⟨r', readRung_eq_ok_iff.2 ⟨(utf8Size_le_of_sublist sub).trans small, d, again⟩, alike, ?_⟩
  rw [← r'.text_bare, alike, r.text_bare]

theorem readRung_text_group :
    ∃ r, readRung " A( x , ? )[ B() , C('),') ] ;".toList = .ok r ∧
      ∃ r', readRung r.text.toList = .ok r' ∧ r'.bare = r.bare ∧ r'.text = r.text := by
  have accepted : (readRung " A( x , ? )[ B() , C('),') ] ;".toList).toBool = true := by
    decide +kernel
  cases read : readRung " A( x , ? )[ B() , C('),') ] ;".toList with
  | ok r => exact ⟨r, rfl, readRung_text read⟩
  | error e =>
    rw [read] at accepted
    cases accepted

end Plc.Ladder

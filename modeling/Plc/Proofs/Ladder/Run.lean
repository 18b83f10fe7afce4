/-
Running the rules of a rung.

What a rule gives from a cursor, step by step.

* `bind_eq_ok_iff` — two rules in a row;
* `Cursor.past`, `Cursor.pastBlanks`, `Cursor.counted` — how a cursor moves;
* `checkLimit_eq_ok_iff`, `countPass_eq_ok_iff`, `element_eq_ok_iff` — bounds that are kept.
-/
import Plc.Ladder.Reading
import Plc.Proofs.Token.Follow

namespace Plc.Ladder

open Text

/-! ### Cursors -/

/-- A letter or `_` is neither a blank nor a mark of the grammar. -/
theorem plain_of_isNameStart {a : Char} (h : isNameStart a = true) :
    isBlank a = false ∧ a ≠ '[' ∧ a ≠ ',' ∧ a ≠ ']' ∧ a ≠ ';' := by
  obtain ⟨low, high⟩ := Lexed.toNat_of_isNameStart h
  have blank : isBlank a = false := by
    simp only [isBlank, Bool.or_eq_false_iff, Bool.and_eq_false_iff, decide_eq_false_iff_not,
      beq_eq_false_iff_ne]
    omega
  refine ⟨blank, ?_, ?_, ?_, ?_⟩
  · rintro rfl
    cases h
  · rintro rfl
    cases h
  · rintro rfl
    cases h
  · rintro rfl
    cases h

theorem drop_length_takeWhile (p : Char → Bool) (cs : List Char) :
    cs.drop (cs.takeWhile p).length = cs.dropWhile p := by
  induction cs with
  | nil => rfl
  | cons d cs ih =>
    cases h : p d with
    | true => simp [h, ih]
    | false => simp [h]

/-- A predicate holds up to the first character it does not hold of. -/
theorem false_of_mem_dropWhile {p : Char → Bool} {cs : List Char} :
    ∀ a ∈ (cs.dropWhile p).head?, p a = false := by
  intro a ha
  have head := List.head?_dropWhile_not p cs
  rw [ha] at head
  exact head

namespace Cursor

/-- The cursor after so many more characters. -/
def past (c : Cursor) (n : Nat) : Cursor :=
  { c with rest := c.rest.drop n, position := c.position + n }

@[simp] theorem past_rest (c : Cursor) (n : Nat) : (c.past n).rest = c.rest.drop n := rfl

@[simp] theorem past_position (c : Cursor) (n : Nat) : (c.past n).position = c.position + n := rfl

@[simp] theorem past_passes (c : Cursor) (n : Nat) : (c.past n).passes = c.passes := rfl

@[simp] theorem past_usage (c : Cursor) (n : Nat) : (c.past n).usage = c.usage := rfl

theorem rest_eq_cons {c : Cursor} {a : Char} (h : c.rest.head? = some a) :
    c.rest = a :: (c.past 1).rest := by
  rw [past_rest]
  cases rest : c.rest with
  | nil => simp [rest] at h
  | cons b cs =>
    rw [rest] at h
    cases h
    rfl

/-- The cursor after the blanks that come next. -/
def pastBlanks (c : Cursor) : Cursor := c.past (c.rest.takeWhile isBlank).length

@[simp] theorem pastBlanks_rest (c : Cursor) : c.pastBlanks.rest = c.rest.dropWhile isBlank :=
  drop_length_takeWhile _ _

theorem pastBlanks_head (c : Cursor) : ∀ a ∈ c.pastBlanks.rest.head?, isBlank a = false := by
  rw [pastBlanks_rest]
  exact false_of_mem_dropWhile

@[simp] theorem pastBlanks_passes (c : Cursor) : c.pastBlanks.passes = c.passes := rfl

@[simp] theorem pastBlanks_usage (c : Cursor) : c.pastBlanks.usage = c.usage := rfl

/-- Where no blank comes next, none is passed over. -/
theorem pastBlanks_eq_self {c : Cursor} (h : ∀ d ∈ c.rest.head?, isBlank d = false) :
    c.pastBlanks = c := by
  have none : c.rest.takeWhile isBlank = [] := by
    cases rest : c.rest with
    | nil => rfl
    | cons d cs =>
      rw [rest] at h
      exact List.takeWhile_cons_of_neg (Bool.eq_false_iff.1 (h d rfl))
  unfold pastBlanks
  rw [none]
  rfl

/-- The cursor after the name that comes next. -/
def pastName (c : Cursor) : Cursor := c.past (c.rest.takeWhile isNameChar).length

@[simp] theorem pastName_rest (c : Cursor) : c.pastName.rest = c.rest.dropWhile isNameChar :=
  drop_length_takeWhile _ _

theorem pastName_head (c : Cursor) : ∀ a ∈ c.pastName.rest.head?, isNameChar a = false := by
  rw [pastName_rest]
  exact false_of_mem_dropWhile

@[simp] theorem pastName_passes (c : Cursor) : c.pastName.passes = c.passes := rfl

@[simp] theorem pastName_usage (c : Cursor) : c.pastName.usage = c.usage := rfl

/-- The cursor when one more pass is counted. -/
def counted (c : Cursor) : Cursor := { c with passes := c.passes + 1 }

@[simp] theorem counted_rest (c : Cursor) : c.counted.rest = c.rest := rfl

@[simp] theorem counted_position (c : Cursor) : c.counted.position = c.position := rfl

@[simp] theorem counted_passes (c : Cursor) : c.counted.passes = c.passes + 1 := rfl

@[simp] theorem counted_usage (c : Cursor) : c.counted.usage = c.usage := rfl

end Cursor

namespace RungRule

variable {α β : Type} {l : Limits} {c c' : Cursor}

theorem bind_apply (r : RungRule α) (f : α → RungRule β) (l : Limits) (c : Cursor) :
    (r >>= f) l c = match r l c with
      | .ok a c' => f a l c'
      | .error e c' => .error e c' := by
  show EStateM.bind (r l) (fun a => f a l) c = _
  rw [EStateM.bind]
  cases r l c <;> rfl

theorem bind_eq_ok_iff {r : RungRule α} {f : α → RungRule β} {b : β} :
    (r >>= f) l c = .ok b c' ↔ ∃ a c₁, r l c = .ok a c₁ ∧ f a l c₁ = .ok b c' := by
  rw [bind_apply]
  cases r l c with
  | ok a c₁ =>
    constructor
    · exact fun h => ⟨a, c₁, rfl, h⟩
    · rintro ⟨_, _, same, h⟩
      cases same
      exact h
  | error e c₁ =>
    constructor
    · rintro ⟨⟩
    · rintro ⟨_, _, ⟨⟩, -⟩

/-- A rule whose first part is known to give a result. -/
theorem bind_of_ok {r : RungRule α} {f : α → RungRule β} {a : α} {c₁ : Cursor}
    (h : r l c = .ok a c₁) : (r >>= f) l c = f a l c₁ := by
  rw [bind_apply, h]

/-! ### Characters -/

theorem peek_apply (l : Limits) (c : Cursor) : peek l c = .ok c.rest.head? c := rfl

theorem here_apply (l : Limits) (c : Cursor) : here l c = .ok c.position c := rfl

theorem get_apply (l : Limits) (c : Cursor) : (get : RungRule Cursor) l c = .ok c c := rfl

theorem modify_apply (f : Cursor → Cursor) (l : Limits) (c : Cursor) :
    (modify f : RungRule Unit) l c = .ok () (f c) := rfl

theorem limits_apply (l : Limits) (c : Cursor) : (read : RungRule Limits) l c = .ok l c := rfl

theorem skip_apply (n : Nat) (l : Limits) (c : Cursor) : skip n l c = .ok () (c.past n) := rfl

theorem spanFrom_apply (start : Nat) (l : Limits) (c : Cursor) : spanFrom start l c =
    .ok ⟨start, max start c.position, Nat.le_max_left ..⟩ c := rfl

theorem takeName_apply (l : Limits) (c : Cursor) :
    takeWhile isNameChar l c = .ok (c.rest.takeWhile isNameChar) c.pastName := rfl

theorem skipBlanks_apply (l : Limits) (c : Cursor) : skipBlanks l c = .ok () c.pastBlanks := rfl

/-- The error about the next character is an error. -/
theorem failUnexpected_ne_ok {a : α} : (failUnexpected : RungRule α) l c ≠ .ok a c' := by
  unfold failUnexpected
  rw [bind_of_ok (peek_apply l c)]
  cases c.rest.head? with
  | none => exact nofun
  | some d => exact nofun

/-! ### Bounds -/

theorem checkLimit_eq_ok_iff {kind : LimitKind} {value : Nat} {span : Span} {u : Unit} :
    checkLimit kind value span l c = .ok u c' ↔ value ≤ l.bound kind ∧ c' = c := by
  unfold checkLimit
  rw [bind_eq_ok_iff]
  constructor
  · rintro ⟨l', c₁, read, rest⟩
    cases read
    cases checked : l.check kind value span with
    | ok _ =>
      simp only [checked] at rest
      cases rest
      exact ⟨Limits.check_eq_ok_iff.1 checked, rfl⟩
    | error e =>
      simp only [checked] at rest
      cases rest
  · rintro ⟨le, rfl⟩
    refine ⟨l, c', rfl, ?_⟩
    simp only [Limits.check_eq_ok_iff.2 le]
    rfl

theorem checkSize_eq_ok_iff {size : Nat} {u : Unit} :
    checkSize size l c = .ok u c' ↔ size ≤ l.maxCollectionSize ∧ c' = c := by
  unfold checkSize
  rw [bind_eq_ok_iff]
  constructor
  · rintro ⟨p, c₁, here, rest⟩
    cases here
    exact checkLimit_eq_ok_iff.1 rest
  · exact fun h => ⟨c.position, c, rfl, checkLimit_eq_ok_iff.2 h⟩

theorem countPass_eq_ok_iff {u : Unit} : countPass l c = .ok u c' ↔
    c.passes + 1 ≤ l.maxIterations ∧ c' = c.counted := by
  unfold countPass
  rw [bind_eq_ok_iff]
  constructor
  · rintro ⟨_, c₁, change, rest⟩
    cases change
    obtain ⟨c₂, c₃, now, rest⟩ := bind_eq_ok_iff.1 rest
    cases now
    obtain ⟨p, c₄, here, rest⟩ := bind_eq_ok_iff.1 rest
    cases here
    exact checkLimit_eq_ok_iff.1 rest
  · intro h
    refine ⟨(), _, rfl, bind_eq_ok_iff.2 ⟨_, _, rfl, bind_eq_ok_iff.2 ⟨_, _, rfl, ?_⟩⟩⟩
    exact checkLimit_eq_ok_iff.2 h

theorem element_eq_ok_iff {start : Nat} {span : Span} : element start l c = .ok span c' ↔
    span = ⟨start, max start c.position, Nat.le_max_left ..⟩ ∧
      c.usage.nodes + 1 ≤ l.maxNodes ∧ c' = { c with usage := c.usage.addNode } := by
  unfold element
  rw [bind_eq_ok_iff]
  constructor
  · rintro ⟨s, c₁, place, rest⟩
    cases place
    obtain ⟨_, c₂, change, rest⟩ := bind_eq_ok_iff.1 rest
    cases change
    obtain ⟨c₃, c₄, now, rest⟩ := bind_eq_ok_iff.1 rest
    cases now
    obtain ⟨_, c₅, checked, rest⟩ := bind_eq_ok_iff.1 rest
    cases rest
    obtain ⟨le, rfl⟩ := checkLimit_eq_ok_iff.1 checked
    exact ⟨rfl, le, rfl⟩
  · rintro ⟨rfl, le, rfl⟩
    refine ⟨_, _, rfl, bind_eq_ok_iff.2 ⟨(), _, rfl, bind_eq_ok_iff.2 ⟨_, _, rfl, ?_⟩⟩⟩
    exact bind_eq_ok_iff.2 ⟨(), _, checkLimit_eq_ok_iff.2 ⟨le, rfl⟩, rfl⟩

end RungRule

end Plc.Ladder

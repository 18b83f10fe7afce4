/-
Carets below a line.

A message about a place in a text shows the line that the place is in, or a window of a long
line with dots for what is left out, and carets below it.

* `IsLine` — a stretch of a text that is one of its lines;
* `Around.isLine` — the line of an offset, as it is looked for;
* `View` — what is shown of the line of an offset, and the column of the offset in it;
* `View.shows`, `View.column_end` — in its column stands the character at the offset, or the line
  ends there;
* `carets_point` — the carets of both kinds of messages stand in that column.
-/
import Plc.Ladder.Reading
import Plc.Proofs.Token.Follow

namespace Plc

namespace Text

variable {source : List Char} {start stop i j : Nat}

/-! ### Stretches -/

theorem getElem?_slice (h : start + i < stop) : (slice source start stop)[i]? = source[start + i]? := by
  rw [slice, List.getElem?_take_of_lt (by omega), List.getElem?_drop]

theorem length_slice (h : stop ≤ source.length) : (slice source start stop).length = stop - start := by
  rw [slice, List.length_take, List.length_drop]
  omega

/-- A stretch of a stretch. -/
theorem slice_slice (h : start + j ≤ stop) :
    slice (slice source start stop) i j = slice source (start + i) (start + j) := by
  rw [slice, slice, slice, List.drop_take, List.take_take, List.drop_drop]
  congr 1
  omega

theorem mem_slice {c : Char} (low : start ≤ i) (high : j ≤ stop) (h : c ∈ slice source i j) :
    c ∈ slice source start stop := by
  by_cases empty : j ≤ start
  · rw [slice, Nat.sub_eq_zero_of_le (Nat.le_trans empty low), List.take_zero] at h
    cases h
  · have inner : slice source i j = slice (slice source start stop) (i - start) (j - start) := by
      rw [slice_slice (by omega), Nat.add_sub_cancel' low, Nat.add_sub_cancel' (by omega)]
    rw [inner] at h
    exact List.mem_of_mem_drop (List.mem_of_mem_take h)

theorem slice_append (front mid back : List Char) :
    slice (front ++ (mid ++ back)) front.length (front.length + mid.length) = mid := by
  rw [slice, List.drop_left, Nat.add_sub_cancel_left, List.take_left]

/-! ### Lines -/

/-- The stretch is a line of the text, without the line feeds before and after it. -/
structure IsLine (source : List Char) (start stop : Nat) : Prop where
  ordered : start ≤ stop
  within : stop ≤ source.length
  unbroken : '\n' ∉ slice source start stop
  opens : start = 0 ∨ source[start - 1]? = some '\n'
  closes : stop = source.length ∨ source[stop]? = some '\n'

/-- A text cut at a place in one of its lines, and before and after the line. -/
structure Around where
  before : List Char
  left : List Char
  right : List Char
  after : List Char
  left_unbroken : '\n' ∉ left
  right_unbroken : '\n' ∉ right
  opens : ∀ c ∈ before.getLast?, c = '\n'
  closes : ∀ c ∈ after.head?, c = '\n'

namespace Around

/-- The text that is cut. -/
def text (x : Around) : List Char := x.before ++ (x.left ++ (x.right ++ x.after))

/-- The place in the line. -/
def place (x : Around) : Nat := x.before.length + x.left.length

/-- Where the line begins. -/
def first (x : Around) : Nat := x.before.length

/-- Where the line ends. -/
def last (x : Around) : Nat := x.place + x.right.length

theorem first_le (x : Around) : x.first ≤ x.place := Nat.le_add_right _ _

theorem le_last (x : Around) : x.place ≤ x.last := Nat.le_add_right _ _

end Around

/-- A number is written in digits. -/
theorem feed_not_mem_toString (n : Nat) : '\n' ∉ (toString n).toList := by
  intro h
  rw [Nat.toString_eq_ofList_toDigits, String.toList_ofList] at h
  have digit := Nat.isDigit_of_mem_toDigits (by decide) (by decide) h
  exact absurd digit (by decide)

/-- What comes up to the next line feed has none in it. -/
theorem feed_not_mem_takeWhile (cs : List Char) : '\n' ∉ cs.takeWhile (· != '\n') := by
  intro h
  have other := List.all_eq_true.1 List.all_takeWhile _ h
  exact absurd other (by decide)

theorem head?_dropWhile_feed (cs : List Char) : ∀ c ∈ (cs.dropWhile (· != '\n')).head?, c = '\n' := by
  intro c hc
  have stop := List.head?_dropWhile_not (· != '\n') cs
  rw [hc] at stop
  simpa using stop

/-- A text cut around the line of an offset. -/
def around (source : List Char) (p : Nat) : Around where
  before := ((source.take p).reverse.dropWhile (· != '\n')).reverse
  left := ((source.take p).reverse.takeWhile (· != '\n')).reverse
  right := (source.drop p).takeWhile (· != '\n')
  after := (source.drop p).dropWhile (· != '\n')
  left_unbroken := by
    rw [List.mem_reverse]
    exact feed_not_mem_takeWhile _
  right_unbroken := feed_not_mem_takeWhile _
  opens := by
    rw [List.getLast?_reverse]
    exact head?_dropWhile_feed _
  closes := head?_dropWhile_feed _

theorem around_front (source : List Char) (p : Nat) :
    (around source p).before ++ (around source p).left = source.take p := by
  rw [around, ← List.reverse_append, List.takeWhile_append_dropWhile, List.reverse_reverse]

theorem around_text (source : List Char) (p : Nat) : (around source p).text = source := by
  rw [Around.text, ← List.append_assoc, around_front]
  simp [around]

theorem around_place {p : Nat} (h : p ≤ source.length) : (around source p).place = p := by
  rw [Around.place, ← List.length_append, around_front, List.length_take, Nat.min_eq_left h]

namespace Around

/-- A stretch without line feeds is passed over whole. -/
theorem unbroken {cs : List Char} (h : '\n' ∉ cs) : ∀ c ∈ cs, (c != '\n') = true := by
  intro c hc
  rw [bne_iff_ne]
  rintro rfl
  exact h hc

theorem lineStart_eq (x : Around) : lineStart x.text x.place = x.first := by
  have left : ∀ c ∈ x.left.reverse, (c != '\n') = true :=
    unbroken (mt List.mem_reverse.1 x.left_unbroken)
  have before : ∀ c ∈ x.before.reverse.head?, (c != '\n') = false := by
    intro c hc
    rw [List.head?_reverse] at hc
    rw [x.opens c hc]
    rfl
  have front : x.text.take x.place = x.before ++ x.left := by
    rw [text, place, ← List.append_assoc, ← List.length_append, List.take_left]
  rw [lineStart, front, List.reverse_append, Lexed.takeWhile_run left before, List.length_reverse,
    List.length_append, Nat.add_sub_cancel_right, first]

/-- The line ends in one place, wherever in it the end is looked for from. -/
theorem lineStop_eq (x : Around) :
    lineStop x.text x.place = x.last ∧ lineStop x.text x.first = x.last := by
  have after : ∀ c ∈ x.after.head?, (c != '\n') = false := by
    intro c hc
    rw [x.closes c hc]
    rfl
  have whole : '\n' ∉ x.left ++ x.right := by
    rw [List.mem_append]
    exact not_or.2 ⟨x.left_unbroken, x.right_unbroken⟩
  constructor
  · have behind : x.text.drop x.place = x.right ++ x.after := by
      rw [text, place, ← List.append_assoc, ← List.length_append, List.drop_left]
    rw [lineStop, behind, Lexed.takeWhile_run (unbroken x.right_unbroken) after, last]
  · rw [lineStop, text, first, List.drop_left, ← List.append_assoc,
      Lexed.takeWhile_run (unbroken whole) after, List.length_append, last, place, Nat.add_assoc]

theorem isLine (x : Around) : IsLine x.text x.first x.last where
  ordered := Nat.le_trans x.first_le x.le_last
  within := by
    simp only [last, place, text, List.length_append]
    omega
  unbroken := by
    have line : slice x.text x.first x.last = x.left ++ x.right := by
      rw [text, first, last, place, Nat.add_assoc, ← List.length_append, ← List.append_assoc x.left,
        slice_append]
    rw [line, List.mem_append]
    exact not_or.2 ⟨x.left_unbroken, x.right_unbroken⟩
  opens := by
    rcases List.eq_nil_or_concat x.before with none | ⟨front, c, some⟩
    · exact .inl (by rw [first, none]; rfl)
    · have feed := x.opens c (by simp [some])
      subst feed
      exact .inr (by simp [text, first, some])
  closes := by
    cases some : x.after with
    | nil => exact .inl (by simp [text, last, place, some, Nat.add_assoc])
    | cons c cs =>
      have feed := x.closes c (by simp [some])
      subst feed
      refine .inr ?_
      have behind : x.text.drop x.last = '\n' :: cs := by
        rw [text, last, place, some, ← List.append_assoc, ← List.append_assoc, ← List.length_append,
          ← List.length_append, List.drop_left]
      rw [← List.head?_drop, behind]
      rfl

/-- No line feed stands between the beginning of the line and the offset. -/
theorem count_eq (x : Around) : (x.text.take x.place).count '\n' = (x.text.take x.first).count '\n' := by
  rw [text, first, List.take_left, place, ← List.append_assoc, ← List.length_append, List.take_left,
    List.count_append, List.count_eq_zero.2 x.left_unbroken, Nat.add_zero]

end Around

end Text

open Text

/-! ### What is shown of a line -/

/-- A window of the line that an offset is in.  The character at the offset is shown, unless the line
ends there; then its end is shown. -/
structure View (source : List Char) (pos : Nat) where
  start : Nat
  stop : Nat
  first : Nat
  last : Nat
  line : IsLine source start stop
  start_le : start ≤ first
  first_le : first ≤ pos
  inside : pos < last ∨ pos = last ∧ last = stop
  last_le : last ≤ stop

namespace View

variable {source : List Char} {start stop pos : Nat} {c : Char}

/-- The whole line of an offset. -/
def whole (line : IsLine source start stop) (low : start ≤ pos) (high : pos ≤ stop) :
    View source pos where
  start := start
  stop := stop
  first := start
  last := stop
  line := line
  start_le := Nat.le_refl start
  first_le := low
  inside := by omega
  last_le := Nat.le_refl stop

/-- Dots where something is left out. -/
def dots (complete : Bool) : List Char := if complete then [] else ['.', '.', '.']

theorem dots_eq {p : Prop} [Decidable p] {m n : Nat} (h : p ↔ m ≠ n) :
    (if p then ['.', '.', '.'] else []) = dots (m == n) := by
  by_cases same : m = n
  · rw [if_neg (fun cut => h.1 cut same), same, beq_self_eq_true]
    rfl
  · rw [if_pos (h.2 same), beq_false_of_ne same]
    rfl

/-- The characters of the window, with dots where the line goes on. -/
def text (v : View source pos) : List Char :=
  dots (v.first == v.start) ++ (slice source v.first v.last ++ dots (v.last == v.stop))

/-- Where the offset is in the window. -/
def offset (v : View source pos) : Nat := (dots (v.first == v.start)).length + (pos - v.first)

/-- The number of the line, counted from one. -/
def number (v : View source pos) : Nat := (source.take v.start).count '\n' + 1

/-- The number of the line and a bar. -/
def gutter (v : View source pos) : List Char := (toString v.number).toList ++ " | ".toList

/-- The window, behind the number of the line. -/
def shown (v : View source pos) : List Char := v.gutter ++ v.text

/-- The column of the offset in what is shown. -/
def column (v : View source pos) : Nat := v.gutter.length + v.offset

theorem length_shown (v : View source pos) :
    v.shown.length = v.column + (v.last - pos) + (dots (v.last == v.stop)).length := by
  have within : v.last ≤ source.length := Nat.le_trans v.last_le v.line.within
  have := v.first_le
  have := v.inside
  simp only [shown, column, text, offset, List.length_append, length_slice within]
  omega

theorem getElem?_shown (v : View source pos) (h : pos < v.last) :
    v.shown[v.column]? = source[pos]? := by
  have low := v.first_le
  have place : v.first + (pos - v.first) = pos := by omega
  have within : v.last ≤ source.length := Nat.le_trans v.last_le v.line.within
  have inner : pos - v.first < (slice source v.first v.last).length := by
    rw [length_slice within]
    omega
  -- past the gutter, past the dots, and then in the window itself
  rw [shown, column, List.getElem?_append_right (Nat.le_add_right _ _), Nat.add_sub_cancel_left,
    text, offset, List.getElem?_append_right (Nat.le_add_right _ _), Nat.add_sub_cancel_left,
    List.getElem?_append_left inner, getElem?_slice (by omega), place]

/-- No character of the line ends it. -/
theorem ne_feed (v : View source pos) (h : pos < v.stop) : source[pos]? ≠ some '\n' := by
  intro feed
  have low : v.start + (pos - v.start) = pos := by
    have := v.start_le
    have := v.first_le
    omega
  refine v.line.unbroken (List.mem_of_getElem? (i := pos - v.start) ?_)
  rw [getElem?_slice (by omega), low]
  exact feed

/-- In the column stands the character at the offset. -/
theorem shows (v : View source pos) (here : source[pos]? = some c) (other : c ≠ '\n') :
    v.shown[v.column]? = some c := by
  rcases v.inside with inside | ⟨last, ends⟩
  · rw [v.getElem?_shown inside]
    exact here
  · -- at the end of its line no other character stands
    exfalso
    rw [last, ends] at here
    rcases v.line.closes with last | feed
    · rw [last, List.getElem?_eq_none (Nat.le_refl _)] at here
      cases here
    · rw [feed] at here
      cases here
      exact other rfl

/-- Where the line ends, the column is the one behind what is shown. -/
theorem column_end (v : View source pos) (ends : source[pos]? = some '\n' ∨ pos = source.length) :
    v.column = v.shown.length := by
  have within := v.line.within
  have last : pos = v.last ∧ v.last = v.stop := by
    refine v.inside.resolve_left fun inside => ?_
    have before : pos < v.stop := Nat.lt_of_lt_of_le inside v.last_le
    rcases ends with feed | rfl
    · exact v.ne_feed before feed
    · omega
  have none : v.last - pos = 0 := by omega
  rw [length_shown, none, last.2, beq_self_eq_true]
  rfl

theorem feed_not_mem_dots (complete : Bool) : '\n' ∉ dots complete := by
  cases complete
  all_goals decide

/-- What is shown is one line. -/
theorem feed_not_mem_shown (v : View source pos) : '\n' ∉ v.shown := by
  have inner : '\n' ∉ slice source v.first v.last := fun h =>
    v.line.unbroken (mem_slice v.start_le v.last_le h)
  have bar : '\n' ∉ " | ".toList := by decide
  simp only [shown, gutter, text, List.mem_append, not_or]
  exact ⟨⟨feed_not_mem_toString _, bar⟩, feed_not_mem_dots _, inner, feed_not_mem_dots _⟩

end View

/-! ### Messages -/

/-- The message ends with what the view shows, and below it some carets, the first in the column of the
offset, and some words behind them. -/
structure Points {source : List Char} {pos : Nat} (message : List Char) (v : View source pos) (width : Nat)
    (words : List Char) : Prop where
  ends : ∃ before margin, margin.length = v.column ∧ '\n' ∉ margin ∧ '^' ∉ margin ∧
    message = before ++ '\n' :: (v.shown ++ '\n' :: (margin ++ (List.replicate width '^' ++ words)))
  one_line : '\n' ∉ v.shown

namespace Ladder.RungError

/-- What is shown of a line is a window of it, and the whole line if it is short. -/
theorem exists_view {source : List Char} {start stop pos : Nat} (line : IsLine source start stop)
    (low : start ≤ pos) (high : pos ≤ stop) :
    ∃ v : View source pos, v.start = start ∧ v.stop = stop ∧
      (stop - start ≤ fullLine → v.first = start ∧ v.last = stop) ∧
      excerptOf (slice source start stop) (pos - start) = (v.text, v.offset) := by
  have length : (slice source start stop).length = stop - start := length_slice line.within
  by_cases short : stop - start ≤ fullLine
  · refine ⟨.whole line low high, rfl, rfl, fun _ => ⟨rfl, rfl⟩, ?_⟩
    rw [excerptOf, length, if_pos short]
    simp [View.whole, View.text, View.offset, View.dots]
  · -- the window, measured from the beginning of the line
    generalize hfirst : pos - start - shownBefore = first
    generalize hlast : min (stop - start) (pos - start + shownAfter) = last
    have before : start + first ≤ pos := by omega
    have after : pos < start + last ∨ pos = start + last ∧ start + last = stop := by
      simp only [shownAfter] at hlast
      omega
    have within : start + last ≤ stop := by omega
    refine ⟨⟨start, stop, start + first, start + last, line, Nat.le_add_right _ _, before, after, within⟩,
      rfl, rfl, fun h => absurd h short, ?_⟩
    have opening : first > 0 ↔ start + first ≠ start := by omega
    have closing : last < stop - start ↔ start + last ≠ stop := by
      have := line.ordered
      omega
    have column : pos - start - first = pos - (start + first) := by omega
    rw [excerptOf, length, if_neg short]
    dsimp only
    rw [hfirst, hlast, View.dots_eq opening, View.dots_eq closing, slice_slice within, column,
      List.append_assoc]
    exact congrArg (Prod.mk _) (Nat.add_comm _ _)

end Ladder.RungError

/-! ### Both kinds of messages -/

namespace Ladder.RungError

/-- An error is shown with a caret below the offending character. -/
theorem explain_points {source : List Char} (e : RungError) {pos : Nat} (place : e.position = some pos)
    (inside : pos < source.length) :
    ∃ v : View source pos, (v.stop - v.start ≤ fullLine → v.first = v.start ∧ v.last = v.stop) ∧
      Points (e.explain source).toList v 1 " here".toList := by
  have text := around_text source pos
  have here := around_place (Nat.le_of_lt inside)
  generalize around source pos = x at text here
  subst text here
  -- The window is the line, or a part of it around the place.
  obtain ⟨v, start, stop, short, shown⟩ := exists_view x.isLine x.first_le x.le_last
  refine ⟨v, by rwa [start, stop], ⟨?_, v.feed_not_mem_shown⟩⟩
  have number : (lineColumn x.text x.place).1 = v.number := by
    rw [View.number, start, ← x.count_eq]
    rfl
  unfold explain
  rw [place]
  dsimp only
  rw [if_neg (Nat.not_le_of_lt inside), x.lineStart_eq, x.lineStop_eq.1, shown, number]
  dsimp only
  refine ⟨("error: " ++ e.message ++ "\n" ++ " --> position " ++ toString v.number ++ ":" ++
    toString (x.place - x.first)).toList, List.replicate v.column ' ', List.length_replicate, ?_, ?_, ?_⟩
  · simp
  · simp
  · have width : (toString v.number ++ " | ").length + v.offset = v.column := by
      rw [← String.length_toList, String.toList_append]
      rfl
    rw [width]
    simp only [String.toList_append, String.toList_ofList, View.shown, View.gutter]
    simp

end Ladder.RungError

/-- A span is shown with carets below its first characters, in the whole line that it begins on. -/
theorem Span.excerpt_points {source : List Char} (s : Span) (header : String)
    (inside : s.start ≤ source.length) :
    ∃ v : View source s.start, (v.first = v.start ∧ v.last = v.stop) ∧
      s.caretCount source = max 1 (min s.length (v.stop - s.start)) ∧
      Points (s.excerpt source header).toList v (s.caretCount source) [] := by
  have text := around_text source s.start
  have here := around_place inside
  generalize around source s.start = x at text here
  subst text
  have line : lineStart x.text s.start = x.first := here ▸ x.lineStart_eq
  have feeds : (x.text.take s.start).count '\n' = (x.text.take x.first).count '\n' := here ▸ x.count_eq
  -- The window is the whole line here, unlike for rungs.
  obtain ⟨v, start, stop, first, last⟩ : ∃ v : View x.text s.start,
      v.start = x.first ∧ v.stop = x.last ∧ v.first = x.first ∧ v.last = x.last :=
    ⟨.whole x.isLine (here ▸ x.first_le) (here ▸ x.le_last), rfl, rfl, rfl, rfl⟩
  have position : lineColumn x.text s.start = (v.number, s.start - x.first + 1) := by
    rw [lineColumn, feeds, line, List.length_take, Nat.min_eq_left inside, View.number, start]
  -- What is printed is the window as it is, with nothing cut off.
  have whole : v.text = slice x.text x.first x.last ∧ v.offset = s.start - x.first := by
    simp [View.text, View.offset, View.dots, start, stop, first, last]
  refine ⟨v, ⟨first.trans start.symm, last.trans stop.symm⟩, ?_, ⟨?_, v.feed_not_mem_shown⟩⟩
  · rw [caretCount, line, x.lineStop_eq.2, stop]
  unfold excerpt
  rw [position, line]
  dsimp only
  rw [x.lineStop_eq.2, Nat.add_sub_cancel, ← whole.1]
  refine ⟨(header ++ "\n" ++ String.ofList (List.replicate (toString v.number).length ' ') ++ "--> " ++
    toString v.number ++ ":" ++ toString (s.start - x.first + 1)).toList,
    List.replicate (toString v.number).length ' ' ++
      (" | ".toList ++ List.replicate (s.start - x.first) ' '), ?_, ?_, ?_, ?_⟩
  · simp only [View.column, View.gutter, whole.2, List.length_append, List.length_replicate,
      String.length_toList, Nat.add_assoc]
  · simp
  · simp
  · simp only [String.toList_append, String.toList_ofList, View.shown, View.gutter]
    simp

/-! ### Where the carets point -/

/-- An error in a rung is shown with one caret, in the column where the line that is shown, or the window
of it, has the character that the error is about, or ends if that is a line feed.  A span is shown
with at least one caret, and no more than it has characters, from the column of its first character on;
the carets stay below the line, save for the one that shows the end of the line. -/
theorem carets_point (source : List Char) :
    (∀ (e : Ladder.RungError) (pos : Nat), e.position = some pos → pos < source.length →
      ∃ v : View source pos, Points (e.explain source).toList v 1 " here".toList ∧
        (v.stop - v.start ≤ Ladder.RungError.fullLine → v.first = v.start ∧ v.last = v.stop) ∧
        (∀ c, source[pos]? = some c → c ≠ '\n' → v.shown[v.column]? = some c) ∧
        (source[pos]? = some '\n' → v.column = v.shown.length)) ∧
    (∀ (s : Span) (header : String), s.start ≤ source.length →
      ∃ v : View source s.start, Points (s.excerpt source header).toList v (s.caretCount source) [] ∧
        (v.first = v.start ∧ v.last = v.stop) ∧
        (∀ c, source[s.start]? = some c → c ≠ '\n' → v.shown[v.column]? = some c) ∧
        (source[s.start]? = some '\n' ∨ s.start = source.length → v.column = v.shown.length) ∧
        1 ≤ s.caretCount source ∧ s.caretCount source ≤ max 1 s.length ∧
        (v.column + s.caretCount source ≤ v.shown.length ∨
          v.column = v.shown.length ∧ s.caretCount source = 1)) := by
  refine ⟨fun e pos place inside => ?_, fun s header inside => ?_⟩
  · obtain ⟨v, short, points⟩ := e.explain_points place inside
    exact ⟨v, points, short, fun c => v.shows, fun feed => v.column_end (.inl feed)⟩
  · obtain ⟨v, complete, count, points⟩ := s.excerpt_points header inside
    refine ⟨v, points, complete, fun c => v.shows, v.column_end, ?_, ?_, ?_⟩
    · omega
    · omega
    · -- the carets end with the span or with the line, whichever comes first
      have shown := v.length_shown
      rw [complete.2, beq_self_eq_true] at shown
      have inside := v.inside
      rw [complete.2] at inside
      simp only [View.dots, if_true, List.length_nil] at shown
      omega

/-- A short line and one that is too long to be shown whole. -/
def longText : List Char := "XIC(A)OTE(B);\nXIC(".toList ++ List.replicate 100 'C'

/-- A parenthesis in the long line, the end of the short one, and a span that goes on behind it. -/
theorem carets_point_long :
    (∃ v : View longText 17, v.shown[v.column]? = some '(' ∧
      Points (Ladder.RungError.explain ⟨.unclosedParen, some 17, none, none⟩ longText).toList v 1
        " here".toList) ∧
    (∃ v : View longText 13, v.column = v.shown.length ∧
      Points (Ladder.RungError.explain ⟨.expected, some 13, none, some ";"⟩ longText).toList v 1
        " here".toList) ∧
    ∃ v : View longText 6, v.shown[v.column]? = some 'O' ∧ v.column + 7 ≤ v.shown.length ∧
      Points ((Span.mk 6 40 (by decide)).excerpt longText "").toList v 7 [] := by
  obtain ⟨errors, spans⟩ := carets_point longText
  refine ⟨?_, ?_, ?_⟩
  · obtain ⟨v, points, -, shows, -⟩ := errors ⟨.unclosedParen, some 17, none, none⟩ 17 rfl (by decide)
    exact ⟨v, shows '(' rfl (by decide), points⟩
  · obtain ⟨v, points, -, -, ends⟩ := errors ⟨.expected, some 13, none, some ";"⟩ 13 rfl (by decide)
    exact ⟨v, ends rfl, points⟩
  · obtain ⟨v, points, -, shows, -, -, -, short⟩ := spans ⟨6, 40, by decide⟩ "" (by decide)
    have count : (Span.mk 6 40 (by decide)).caretCount longText = 7 := by decide
    rw [count] at points short
    exact ⟨v, shows 'O' rfl (by decide), by omega, points⟩

example : Ladder.RungError.explain ⟨.unclosedParen, some 3, none, none⟩ "XIC(A".toList =
    "error: unclosed parenthesis '(' at position 3\n --> position 1:3\n1 | XIC(A\n       ^ here" := by decide

end Plc

/-
Blanks, lines and the order of texts.

`isBlank` is the class of characters that may stand between two tokens: the Unicode white space
characters together with the four information separators U+001C–U+001F.

Offsets count characters from zero.  For places only the line feed ends a line; the newline itself
belongs to no line.  `lines` knows every character that breaks a line.

Texts are ordered by their characters, and characters by their code points.

* `trimStart_eq_self_iff` — trimming changes nothing exactly when the text does not begin with a
  blank;
* `mem_trim` — trimming only removes characters;
* `lineStart_le` — a line begins no later than any offset in it;
* `le_lineStop` — and a line that begins at an offset ends no earlier;
* `breaksLine_of_mem_lines` — no line holds a character that breaks one;
* `mem_inOrder` — ordering neither loses nor invents a name;
* `pairwise_inOrder` — the names ascend.
-/

namespace Plc.Text

/-- A Unicode white space character or an information separator. -/
def isBlank (c : Char) : Bool :=
  let n := c.toNat
  (9 ≤ n && n ≤ 13) || (28 ≤ n && n ≤ 32) || n == 0x85 || n == 0xA0 || n == 0x1680 ||
    (0x2000 ≤ n && n ≤ 0x200A) || n == 0x2028 || n == 0x2029 || n == 0x202F ||
    n == 0x205F || n == 0x3000

theorem isBlank_of_isWhitespace {c : Char} (h : c.isWhitespace = true) : isBlank c = true := by
  simp only [Char.isWhitespace, Bool.or_eq_true, decide_eq_true_eq] at h
  rcases h with ((rfl | rfl) | rfl) | rfl <;> decide

/-- The text without its leading blanks. -/
def trimStart (cs : List Char) : List Char :=
  cs.dropWhile isBlank

/-- The text without its trailing blanks. -/
def trimEnd (cs : List Char) : List Char :=
  (cs.reverse.dropWhile isBlank).reverse

/-- The text without the blanks at either end. -/
def trim (cs : List Char) : List Char :=
  trimEnd (trimStart cs)

/-- The text consists of blanks only. -/
def isAllBlank (cs : List Char) : Bool :=
  cs.all isBlank

theorem trimStart_eq_self_iff {cs : List Char} :
    trimStart cs = cs ↔ ∀ c ∈ cs.head?, isBlank c = false := by
  cases cs with
  | nil => simp [trimStart]
  | cons c cs =>
    cases h : isBlank c with
    | false => simp [trimStart, h]
    | true =>
      simp only [trimStart, List.dropWhile_cons_of_pos h, List.head?_cons, Option.mem_def,
        Option.some.injEq, forall_eq', h, Bool.true_eq_false, iff_false]
      intro e
      have := (List.dropWhile_sublist isBlank (l := cs)).length_le
      rw [e] at this
      simp only [List.length_cons] at this
      omega

theorem mem_trim {c : Char} {cs : List Char} (h : c ∈ trim cs) : c ∈ cs := by
  rw [trim, trimEnd, List.mem_reverse] at h
  have h' := (List.dropWhile_sublist isBlank).subset h
  rw [List.mem_reverse] at h'
  exact (List.dropWhile_sublist isBlank).subset h'

/-- Splits into the maximal runs of characters that are not blank. -/
def words (cs : List Char) : List (List Char) :=
  go cs []
where
  /-- The run read so far is held in reverse. -/
  go : List Char → List Char → List (List Char)
    | [], run => if run.isEmpty then [] else [run.reverse]
    | c :: cs, run =>
      if isBlank c then
        if run.isEmpty then go cs [] else run.reverse :: go cs []
      else go cs (c :: run)

/-- `trim` on strings. -/
def trimString (s : String) : String :=
  String.ofList (trim s.toList)

/-- The characters from one offset up to another. -/
def slice (source : List Char) (start stop : Nat) : List Char :=
  (source.drop start).take (stop - start)

/-- The offset of the first character of the line that holds the given offset. -/
def lineStart (source : List Char) (offset : Nat) : Nat :=
  let before := source.take offset
  before.length - (before.reverse.takeWhile (· != '\n')).length

/-- The offset of the first line feed at or after the given offset, or the end of the text. -/
def lineStop (source : List Char) (offset : Nat) : Nat :=
  offset + ((source.drop offset).takeWhile (· != '\n')).length

/-- The line and the column of an offset, both counted from one; an offset past the end counts
as the end. -/
def lineColumn (source : List Char) (offset : Nat) : Nat × Nat :=
  let before := source.take offset
  (before.count '\n' + 1, before.length - lineStart source offset + 1)

theorem lineStart_le (source : List Char) (offset : Nat) : lineStart source offset ≤ offset := by
  simp only [lineStart, List.length_take]
  omega

theorem le_lineStop (source : List Char) (offset : Nat) : offset ≤ lineStop source offset :=
  Nat.le_add_right _ _

/-- The character ends a line: a line feed, a carriage return, or one of the separators. -/
def breaksLine (c : Char) : Bool :=
  let n := c.toNat
  (10 ≤ n && n ≤ 13) || (28 ≤ n && n ≤ 30) || n == 0x85 || n == 0x2028 || n == 0x2029

/-- The lines of a text of which the last line so far is given in reverse. -/
def linesFrom (line : List Char) : List Char → List (List Char)
  | [] => if line.isEmpty then [] else [line.reverse]
  | '\r' :: '\n' :: cs => line.reverse :: linesFrom [] cs
  | c :: cs => if breaksLine c then line.reverse :: linesFrom [] cs else linesFrom (c :: line) cs

/-- The lines of a text, without what ends them; a carriage return and a line feed end one line,
and nothing after the last end is no line. -/
def lines (cs : List Char) : List (List Char) :=
  linesFrom [] cs

theorem breaksLine_of_mem_linesFrom {line cs : List Char} (h : ∀ c ∈ line, breaksLine c = false) :
    ∀ l ∈ linesFrom line cs, ∀ c ∈ l, breaksLine c = false := by
  fun_induction linesFrom line cs with
  | case1 line he => simp
  | case2 line he => simpa using h
  | case3 line cs ih => simpa using ⟨h, ih (by simp)⟩
  | case4 line c cs hc hb ih => simpa using ⟨h, ih (by simp)⟩
  | case5 line c cs hc hb ih =>
    refine ih fun d hd => ?_
    rcases List.mem_cons.1 hd with rfl | hd
    · simpa using hb
    · exact h d hd

theorem breaksLine_of_mem_lines {cs l : List Char} (hl : l ∈ lines cs) {c : Char} (hc : c ∈ l) :
    breaksLine c = false :=
  breaksLine_of_mem_linesFrom (by simp) l hl c hc

/-- The text up to the first `//`. -/
def beforeComment : List Char → List Char
  | [] => []
  | '/' :: '/' :: _ => []
  | c :: cs => c :: beforeComment cs

/-- The names, each once, in ascending order. -/
def inOrder (names : List String) : List String :=
  names.eraseDups.mergeSort fun a b => a ≤ b

theorem mem_inOrder {names : List String} {n : String} : n ∈ inOrder names ↔ n ∈ names := by
  simp [inOrder, List.mem_mergeSort, List.mem_eraseDups]

theorem pairwise_inOrder (names : List String) : (inOrder names).Pairwise (· ≤ ·) := by
  refine List.Pairwise.imp (fun h => by simpa using h) (List.pairwise_mergeSort ?_ ?_ _)
  · intro a b c hab hbc
    simp only [decide_eq_true_eq] at *
    exact String.le_trans hab hbc
  · intro a b
    simpa using String.le_total a b

end Plc.Text

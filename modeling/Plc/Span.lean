/-
Places in a source text.

A `Span` is a half-open stretch of character offsets.  Tokens, syntax nodes,
findings and graph nodes all carry one.

* `merge_contains_left`, `merge_contains_right` — merging covers both spans;
* `contains_trans` — containment is transitive.

`excerpt` shows the line a span begins on, with carets below the span.
-/
import Plc.Text.Blank

namespace Plc

/-- The offsets from `start` up to, but not including, `stop`. -/
structure Span where
  start : Nat
  stop : Nat
  ordered : start ≤ stop := by omega
  deriving DecidableEq

namespace Span

/-- The empty span at the beginning of the text. -/
def zero : Span := ⟨0, 0, Nat.le_refl 0⟩

instance : Inhabited Span := ⟨zero⟩

/-- The span of one character. -/
def single (pos : Nat) : Span := ⟨pos, pos + 1, Nat.le_succ pos⟩

/-- The message for two offsets that are no span. -/
def refusal (start stop : Int) : String :=
  "invalid span: start (" ++ toString start ++ ") must be >= 0 and <= end (" ++ toString stop ++ ")"

/-- The span between two offsets, when they are in order and not negative. -/
def ofInts (start stop : Int) : Except String Span :=
  if h : 0 ≤ start ∧ start ≤ stop then .ok ⟨start.toNat, stop.toNat, by omega⟩
  else .error (refusal start stop)

/-- The number of characters in the span. -/
def length (s : Span) : Nat := s.stop - s.start

/-- The span holds no character. -/
def isEmpty (s : Span) : Bool := s.stop ≤ s.start

/-- The least span that covers both. -/
def merge (a b : Span) : Span where
  start := min a.start b.start
  stop := max a.stop b.stop
  ordered := by
    have := a.ordered
    omega

/-- The first span covers the second. -/
def contains (a b : Span) : Bool := a.start ≤ b.start && b.stop ≤ a.stop

theorem contains_iff {a b : Span} :
    a.contains b = true ↔ a.start ≤ b.start ∧ b.stop ≤ a.stop := by
  simp [contains]

theorem merge_contains_left (a b : Span) : (a.merge b).contains a = true := by
  rw [contains_iff]
  simp only [merge]
  omega

theorem merge_contains_right (a b : Span) : (a.merge b).contains b = true := by
  rw [contains_iff]
  simp only [merge]
  omega

theorem contains_trans {a b c : Span} (hab : a.contains b = true) (hbc : b.contains c = true) :
    a.contains c = true := by
  rw [contains_iff] at *
  omega

/-- The characters of the span. -/
def text (s : Span) (source : List Char) : List Char :=
  Text.slice source s.start s.stop

/-- The span as messages show it: the offset alone for a single character. -/
def render (s : Span) : String :=
  if s.length ≤ 1 then toString s.start else toString s.start ++ ".." ++ toString s.stop

/-- The number of carets below the first line of the span: at least one, and no further than
the end of that line. -/
def caretCount (s : Span) (source : List Char) : Nat :=
  max 1 (min s.length (Text.lineStop source (Text.lineStart source s.start) - s.start))

/-- A header, the line on which the span begins, and carets below the span. -/
def excerpt (s : Span) (source : List Char) (header : String) : String :=
  let (line, column) := Text.lineColumn source s.start
  let first := Text.lineStart source s.start
  let shown := String.ofList (Text.slice source first (Text.lineStop source first))
  let gutter := toString line
  let pad := String.ofList (List.replicate gutter.length ' ')
  let indent := String.ofList (List.replicate (column - 1) ' ')
  let carets := String.ofList (List.replicate (s.caretCount source) '^')
  header ++ "\n" ++ pad ++ "--> " ++ gutter ++ ":" ++ toString column ++ "\n" ++
    gutter ++ " | " ++ shown ++ "\n" ++ pad ++ " | " ++ indent ++ carets

end Span

end Plc

/-
Bounds on the work done for one text.

A text from an unknown sender must not cost unbounded time or memory.
`Limits` holds the bounds, `Usage` the two counters that grow while a text is
read, and `LimitError` what is reported when a bound is passed.

* `check_eq_ok_iff` — a check passes exactly up to the bound;
* `check_mono` — what passes under some limits passes under larger ones.
-/
import Plc.Span

namespace Plc

/-- The quantities that are bounded. -/
inductive LimitKind where
  | inputSize
  | depth
  | collectionSize
  | nodes
  | stringLength
  | iterations
  deriving DecidableEq

/-- The name of the bound in messages. -/
def LimitKind.label : LimitKind → String
  | .inputSize => "max_input_size"
  | .depth => "max_depth"
  | .collectionSize => "max_collection_size"
  | .nodes => "max_nodes"
  | .stringLength => "max_string_length"
  | .iterations => "max_iterations"

/-- A bound was passed. -/
structure LimitError where
  kind : LimitKind
  bound : Nat
  value : Nat
  span : Span := Span.zero

namespace LimitError

/-- The passed bound in words, without its place. -/
def message (e : LimitError) : String :=
  "security limit exceeded: " ++ e.kind.label ++ " (limit " ++ toString e.bound ++
    ", found " ++ toString e.value ++ ")"

/-- The passed bound in words, with its place. -/
def located (e : LimitError) : String :=
  e.message ++ " at " ++ e.span.render

/-- The passed bound above the line of the source it is about. -/
def excerpt (e : LimitError) (source : List Char) : String :=
  e.span.excerpt source ("error: " ++ e.message)

end LimitError

/-- The number of bytes of a text in UTF-8. -/
def utf8Size (source : List Char) : Nat :=
  source.foldl (fun n c => n + c.utf8Size) 0

/-- Upper bounds, each at least one.  Sizes of texts are in bytes of UTF-8. -/
structure Limits where
  maxInputSize : Nat := 104857600
  maxIterations : Nat := 1000000
  maxDepth : Nat := 256
  maxCollectionSize : Nat := 100000
  maxNodes : Nat := 10000000
  maxStringLength : Nat := 1048576

namespace Limits

/-- For texts from unknown senders. -/
def strict : Limits where
  maxInputSize := 10485760
  maxIterations := 100000
  maxDepth := 64
  maxCollectionSize := 10000
  maxNodes := 1000000
  maxStringLength := 65536

/-- For ordinary use. -/
def balanced : Limits := {}

/-- For large exports from trusted senders. -/
def relaxed : Limits where
  maxInputSize := 1073741824
  maxIterations := 10000000
  maxDepth := 512
  maxCollectionSize := 1000000
  maxNodes := 100000000
  maxStringLength := 10485760

/-- The bound on one quantity. -/
def bound (l : Limits) : LimitKind → Nat
  | .inputSize => l.maxInputSize
  | .depth => l.maxDepth
  | .collectionSize => l.maxCollectionSize
  | .nodes => l.maxNodes
  | .stringLength => l.maxStringLength
  | .iterations => l.maxIterations

/-- Every bound is at least one. -/
def isPositive (l : Limits) : Bool :=
  [LimitKind.inputSize, .depth, .collectionSize, .nodes, .stringLength, .iterations].all
    fun k => 0 < l.bound k

/-- Refuses a value above its bound. -/
def check (l : Limits) (kind : LimitKind) (value : Nat) (span : Span := Span.zero) :
    Except LimitError Unit :=
  if value ≤ l.bound kind then .ok () else .error ⟨kind, l.bound kind, value, span⟩

theorem check_eq_ok_iff {l : Limits} {kind : LimitKind} {value : Nat} {span : Span} :
    l.check kind value span = .ok () ↔ value ≤ l.bound kind := by
  unfold check
  split <;> simp_all

/-- Every bound of the first is at most the same bound of the second. -/
def Le (l m : Limits) : Prop := ∀ kind, l.bound kind ≤ m.bound kind

theorem check_mono {l m : Limits} (h : l.Le m) {kind : LimitKind} {value : Nat} {span : Span}
    (ok : l.check kind value span = .ok ()) : m.check kind value span = .ok () := by
  rw [check_eq_ok_iff] at *
  exact Nat.le_trans ok (h kind)

end Limits

/-- The counters of one reading: how many constructs are open, and how many nodes were built. -/
structure Usage where
  depth : Nat := 0
  nodes : Nat := 0

namespace Usage

/-- One more construct is open. -/
def enter (u : Usage) : Usage := { u with depth := u.depth + 1 }

/-- One construct fewer is open. -/
def leave (u : Usage) : Usage := { u with depth := u.depth - 1 }

/-- One more node was built. -/
def addNode (u : Usage) : Usage := { u with nodes := u.nodes + 1 }

end Usage

/-- One event in the life of a reading that the limits are asked about. -/
inductive Usage.Event where
  | enter
  | exit
  | node
  | measured (kind : LimitKind) (value : Nat)

/-- What one event does to the counters, and whether the limits allow it.  The counters keep the
value that was refused. -/
def Limits.observe (l : Limits) (u : Usage) : Usage.Event → Usage × Except LimitError Unit
  | .enter => (u.enter, l.check .depth u.enter.depth)
  | .exit => (u.leave, .ok ())
  | .node => (u.addNode, l.check .nodes u.addNode.nodes)
  | .measured kind value => (u, l.check kind value)

end Plc

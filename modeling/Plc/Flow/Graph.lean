/-
Control-flow graphs.

A graph is a list of blocks, each known by its place in the list, and a list of
edges between them.  Control starts at the entry block and ends at the exit block.

* `Graph.search` — a search along edges, which visits the blocks that can be reached;
* `Graph.reachable`, `Graph.unreachable`, `Graph.hasPath` — what such searches say;
* `Graph.cyclomatic` — edges less blocks plus two, and `Graph.decisionComplexity`,
  one more than the number of blocks that decide;
* `mem_successors_iff` — successors and predecessors read the same edges.
-/
import Plc.Tree.Stmt

namespace Plc.Flow

/-- What a block is for. -/
inductive BlockKind where
  | entry
  | exit
  | basic
  | branch
  | loopHeader
  | loopExit
  deriving DecidableEq

/-- The name of the kind. -/
def BlockKind.name : BlockKind → String
  | .entry => "ENTRY"
  | .exit => "EXIT"
  | .basic => "BASIC"
  | .branch => "BRANCH"
  | .loopHeader => "LOOP_HEADER"
  | .loopExit => "LOOP_EXIT"

/-- A block, with the statement that it runs or decides on, if it has one. -/
structure Block where
  kind : BlockKind
  statement : Option Stmt := none
  span : Span := Span.zero

/-- The block decides which way control goes. -/
def Block.decides (b : Block) : Bool :=
  b.kind == .branch || b.kind == .loopHeader

/-- Why control goes along an edge. -/
inductive EdgeKind where
  | sequential
  | whenTrue
  | whenFalse
  | loopBack
  | loopExit
  | leave
  deriving DecidableEq

/-- The name of the kind. -/
def EdgeKind.name : EdgeKind → String
  | .sequential => "SEQUENTIAL"
  | .whenTrue => "TRUE_BRANCH"
  | .whenFalse => "FALSE_BRANCH"
  | .loopBack => "LOOP_BACK"
  | .loopExit => "LOOP_EXIT"
  | .leave => "RETURN"

/-- An edge between two blocks. -/
structure Edge where
  source : Nat
  target : Nat
  kind : EdgeKind := .sequential

/-- A control-flow graph. -/
structure Graph where
  blocks : List Block
  edges : List Edge
  entry : Nat := 0
  exit : Nat := 1

/-- A search along edges: the blocks that have been visited, and those to be visited, the next one
first.  A block may be on the stack more than once. -/
structure Search where
  visited : List Nat
  stack : List Nat

/-- Nothing has been visited, and a block is to be. -/
def Search.start (n : Nat) : Search :=
  ⟨[], [n]⟩

namespace Graph

/-! ### Neighbours -/

/-- The blocks that control may go to from a block, one for each edge. -/
def successors (g : Graph) (n : Nat) : List Nat :=
  (g.edges.filter (·.source == n)).map Edge.target

/-- The blocks that control may come from to a block, one for each edge. -/
def predecessors (g : Graph) (n : Nat) : List Nat :=
  (g.edges.filter (·.target == n)).map Edge.source

theorem mem_successors_iff {g : Graph} {m n : Nat} :
    n ∈ g.successors m ↔ m ∈ g.predecessors n := by
  simp only [successors, predecessors, List.mem_map, List.mem_filter, beq_iff_eq]
  constructor
  · rintro ⟨e, ⟨he, hs⟩, ht⟩
    exact ⟨e, ⟨he, ht⟩, hs⟩
  · rintro ⟨e, ⟨he, ht⟩, hs⟩
    exact ⟨e, ⟨he, hs⟩, ht⟩

/-! ### Reachability -/

/-- A block taken from the stack is visited, unless it has been before; then its successors are put
on the stack, the last one on top, but for those visited. -/
def visit (g : Graph) (visited : List Nat) (n : Nat) (rest : List Nat) : Search :=
  if visited.contains n then ⟨visited, rest⟩
  else ⟨n :: visited, ((g.successors n).filter (!(n :: visited).contains ·)).reverse ++ rest⟩

/-- One more pass of a search, unless the stack is empty or a goal is on top of it. -/
def next? (g : Graph) (goal : Nat → Bool) (s : Search) : Option Search :=
  match s.stack with
  | [] => none
  | n :: rest => if goal n then none else some (g.visit s.visited n rest)

/-- The passes that a search can still make: one for each block on the stack, and one for each edge
that leaves a block which has not been visited. -/
def passesLeft (g : Graph) (s : Search) : Nat :=
  g.edges.countP (fun e => !s.visited.contains e.source) + s.stack.length

theorem length_successors (g : Graph) (n : Nat) :
    (g.successors n).length = g.edges.countP (·.source == n) := by
  rw [successors, List.length_map, List.countP_eq_length_filter]

/-- Once a block is visited, the edges that leave it are no longer among those left. -/
theorem countP_unvisited {visited : List Nat} {n : Nat} (new : visited.contains n = false)
    (es : List Edge) :
    es.countP (fun e => !visited.contains e.source) =
      es.countP (fun e => !(n :: visited).contains e.source) + es.countP (·.source == n) := by
  induction es with
  | nil => rfl
  | cons e es ih =>
    simp only [List.countP_cons, ih, List.contains_cons, Bool.not_or, Bool.and_eq_true,
      Bool.not_eq_true', beq_iff_eq, beq_eq_false_iff_ne]
    by_cases h : e.source = n
    · simp only [h, new, ne_eq, not_true, false_and, if_true, if_false]
      omega
    · simp only [h, ne_eq, not_false_eq_true, true_and, if_false]
      omega

theorem passesLeft_visit_lt (g : Graph) (visited : List Nat) (n : Nat) (rest : List Nat) :
    g.passesLeft (g.visit visited n rest) < g.passesLeft ⟨visited, n :: rest⟩ := by
  unfold visit passesLeft
  split
  · simp
  · next new =>
    have fewer := List.length_filter_le (!(n :: visited).contains ·) (g.successors n)
    rw [length_successors] at fewer
    rw [countP_unvisited (Bool.eq_false_iff.2 new) g.edges]
    simp only [List.length_append, List.length_reverse, List.length_cons]
    omega

theorem passesLeft_next?_lt {g : Graph} {goal : Nat → Bool} {s s' : Search}
    (h : g.next? goal s = some s') : g.passesLeft s' < g.passesLeft s := by
  obtain ⟨visited, stack⟩ := s
  cases stack with
  | nil => cases h
  | cons n rest =>
    simp only [next?] at h
    split at h
    · cases h
    · cases h
      exact g.passesLeft_visit_lt visited n rest

/-- Searches along edges until nothing is left on the stack or a goal is on top of it. -/
@[semireducible] def search (g : Graph) (goal : Nat → Bool) (s : Search) : Search :=
  match _ : g.next? goal s with
  | none => s
  | some s' => g.search goal s'
termination_by g.passesLeft s
decreasing_by exact passesLeft_next?_lt ‹_›

/-- The blocks that can be reached from the entry, in ascending order. -/
def reachable (g : Graph) : List Nat :=
  let known := (g.search (fun _ => false) (.start g.entry)).visited
  (List.range g.blocks.length).filter known.contains

/-- The blocks that cannot be reached from the entry, in ascending order. -/
def unreachable (g : Graph) : List Nat :=
  let known := (g.search (fun _ => false) (.start g.entry)).visited
  (List.range g.blocks.length).filter fun n => !known.contains n

/-- Some path, an empty one perhaps, leads from one block to another: a search for the other ends
with it on top of the stack. -/
def hasPath (g : Graph) (source target : Nat) : Bool :=
  !(g.search (· == target) (.start source)).stack.isEmpty

/-! ### Measures -/

/-- Edges less blocks plus two, and never less than one. -/
def cyclomatic (g : Graph) : Nat :=
  max 1 (g.edges.length + 2 - g.blocks.length)

/-- One more than the number of blocks that decide. -/
def decisionComplexity (g : Graph) : Nat :=
  1 + g.blocks.countP Block.decides

/-! ### Drawing -/

/-- How a block is drawn: its name, its label and its shape. -/
def dotBlock (n : Nat) (b : Block) : String :=
  let (label, shape) := match b.kind with
    | .entry => ("Entry", "ellipse")
    | .exit => ("Exit", "ellipse")
    | .basic => ("Block " ++ toString n, "box")
    | .branch => ("Branch " ++ toString n, "diamond")
    | .loopHeader => ("Loop " ++ toString n, "diamond")
    | .loopExit => ("LoopExit " ++ toString n, "box")
  "    n" ++ toString n ++ " [label=\"" ++ label ++ "\" shape=" ++ shape ++ "];"

/-- How an edge is drawn. -/
def dotEdge (e : Edge) : String :=
  let style := match e.kind with
    | .whenTrue => " [label=\"T\" color=green]"
    | .whenFalse => " [label=\"F\" color=red]"
    | .loopBack => " [style=dashed color=blue]"
    | .leave => " [color=purple]"
    | .sequential | .loopExit => ""
  "    n" ++ toString e.source ++ " -> n" ++ toString e.target ++ style ++ ";"

/-- The graph in the DOT language, blocks before edges. -/
def dot (g : Graph) : String :=
  String.join ((["digraph CFG \x7b", "    node [shape=box];"] ++
    g.blocks.zipIdx.map (fun (b, n) => dotBlock n b) ++ g.edges.map dotEdge ++ ["\x7d"]).map
      (· ++ "\n"))

end Graph

end Plc.Flow

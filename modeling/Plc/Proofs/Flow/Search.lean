/-
What a search along edges finds.

A search visits a block at most once, though the block may be on the stack more often, and so it
ends after no more passes than there are edges and one.  What it has visited or put on the stack
can be reached, and whatever an edge from a visited block leads to has been visited or is on the
stack; when the stack is empty, all that can be reached has been visited.

* `search_eq_iterate` — how many passes a search makes;
* `Explores.next`, `Explores.search` — what a pass and a whole search keep;
* `mem_visited_search`, `hasPath_iff` — what is visited, and when a goal is found;
* `reachable_iff_hasPath` — what is said to be reachable, unreachable and connected is so.
-/
import Plc.Proofs.Flow.Fragment
import Mathlib.Logic.Function.Iterate
import Mathlib.Logic.Relation

namespace Plc.Flow

open Relation

/-- The search has visited the block or is going to. -/
def Search.Knows (s : Search) (n : Nat) : Prop :=
  n ∈ s.visited ∨ n ∈ s.stack

namespace Graph

variable {g : Graph} {goal : Nat → Bool} {a : Nat} {s s' : Search}

/-! ### Passes -/

theorem search_of_none (h : g.next? goal s = none) : g.search goal s = s := by
  rw [search]
  split
  · rfl
  · next eq => cases h.symm.trans eq

theorem search_of_some (h : g.next? goal s = some s') : g.search goal s = g.search goal s' := by
  rw [search]
  split
  · next eq => cases h.symm.trans eq
  · next eq =>
    obtain rfl : s' = _ := Option.some.inj (h.symm.trans eq)
    rfl

/-- One pass of a search; a search that has ended stays as it is. -/
def pass (g : Graph) (goal : Nat → Bool) (s : Search) : Search :=
  (g.next? goal s).getD s

/-- A search comes to its end by as many passes as are left. -/
theorem search_eq_iterate {k : Nat} (h : g.passesLeft s ≤ k) :
    (g.pass goal)^[k] s = g.search goal s := by
  induction k generalizing s with
  | zero =>
    -- nothing is on the stack
    have none : g.next? goal s = none := by
      have empty : s.stack = [] := List.length_eq_zero_iff.1 (by simp only [passesLeft] at h; omega)
      simp only [next?, empty]
    rw [search_of_none none]
    rfl
  | succ k ih =>
    cases next : g.next? goal s with
    | none =>
      have fixed : g.pass goal s = s := by simp only [pass, next, Option.getD_none]
      rw [search_of_none next, Function.iterate_fixed fixed]
    | some s' =>
      have fewer := passesLeft_next?_lt next
      have one : g.pass goal s = s' := by simp only [pass, next, Option.getD_some]
      rw [search_of_some next, Function.iterate_succ_apply, one, ih (by omega)]

/-- At first there is one block on the stack, and no edge has been followed. -/
theorem passesLeft_start (g : Graph) (a : Nat) : g.passesLeft (.start a) = g.edges.length + 1 := by
  have all : g.edges.countP (fun e => !([] : List Nat).contains e.source) = g.edges.length :=
    List.countP_eq_length.2 fun _ _ => rfl
  rw [← all]
  rfl

/-! ### What a search keeps -/

theorem mem_visited_visit {visited rest : List Nat} {m n : Nat} :
    m ∈ (g.visit visited n rest).visited ↔ m = n ∨ m ∈ visited := by
  unfold visit
  split
  · next old =>
    have old : n ∈ visited := List.contains_iff_mem.1 old
    constructor
    · exact .inr
    · rintro (rfl | h)
      · exact old
      · exact h
  · exact List.mem_cons

/-- By a visit a search comes to know what the edges from the block lead to. -/
theorem knows_visit {visited rest : List Nat} {m n : Nat} :
    (g.visit visited n rest).Knows m ↔
      Search.Knows ⟨visited, n :: rest⟩ m ∨ n ∉ visited ∧ Joins g.edges n m := by
  unfold visit Search.Knows
  split
  · next old =>
    have old : n ∈ visited := List.contains_iff_mem.1 old
    simp only [List.mem_cons, old, not_true, false_and, or_false]
    constructor
    · rintro (h | h)
      · exact .inl h
      · exact .inr (.inr h)
    · rintro (h | rfl | h)
      · exact .inl h
      · exact .inl old
      · exact .inr h
  · next new =>
    have new : n ∉ visited := fun h => new (List.contains_iff_mem.2 h)
    simp only [List.mem_append, List.mem_reverse, List.mem_filter, mem_successors,
      Bool.not_eq_true', ← Bool.not_eq_true, List.contains_iff_mem, List.mem_cons]
    tauto

/-- What holds of a search that began at a block: what it knows can be reached from there, it knows
the block itself and all that edges from visited blocks lead to, and it has visited no goal. -/
structure Explores (g : Graph) (goal : Nat → Bool) (a : Nat) (s : Search) : Prop where
  start : s.Knows a
  reached : ∀ n, s.Knows n → ReflTransGen (Joins g.edges) a n
  followed : ∀ m ∈ s.visited, ∀ n, Joins g.edges m n → s.Knows n
  missed : ∀ n ∈ s.visited, goal n = false

namespace Explores

theorem initial (g : Graph) (goal : Nat → Bool) (a : Nat) : Explores g goal a (.start a) where
  start := .inr (List.mem_singleton.2 rfl)
  reached n h := by
    obtain h | h := h
    · exact absurd h List.not_mem_nil
    · rw [List.mem_singleton.1 h]
  followed _ h := absurd h List.not_mem_nil
  missed _ h := absurd h List.not_mem_nil

/-- A pass keeps what holds of a search. -/
theorem next (h : Explores g goal a s) (pass : g.next? goal s = some s') :
    Explores g goal a s' := by
  obtain ⟨visited, stack⟩ := s
  cases stack with
  | nil => cases pass
  | cons n rest =>
    simp only [next?] at pass
    split at pass
    · cases pass
    · next notGoal =>
      cases pass
      constructor
      case start => exact knows_visit.2 (.inl h.start)
      case reached =>
        intro m known
        obtain known | ⟨-, edge⟩ := knows_visit.1 known
        · exact h.reached m known
        · exact (h.reached n (.inr List.mem_cons_self)).tail edge
      case followed =>
        intro m mem k edge
        refine knows_visit.2 ?_
        by_cases old : m ∈ visited
        · exact .inl (h.followed m old k edge)
        · -- only the block at hand can be new
          obtain rfl | mem := mem_visited_visit.1 mem
          · exact .inr ⟨old, edge⟩
          · exact absurd mem old
      case missed =>
        intro m mem
        obtain rfl | mem := mem_visited_visit.1 mem
        · exact Bool.eq_false_iff.2 notGoal
        · exact h.missed m mem

/-- A search keeps what holds of it, and goes on until there is no further pass. -/
theorem search (h : Explores g goal a s) :
    Explores g goal a (g.search goal s) ∧ g.next? goal (g.search goal s) = none := by
  fun_induction Graph.search g goal s with
  | case1 s ended => exact ⟨h, ended⟩
  | case2 s s' pass ih => exact ih (h.next pass)

/-- With nothing left on the stack, all that can be reached has been visited. -/
theorem mem_visited (h : Explores g goal a s) (ended : s.stack = []) {n : Nat} :
    n ∈ s.visited ↔ ReflTransGen (Joins g.edges) a n := by
  have visited {m : Nat} (known : s.Knows m) : m ∈ s.visited := by
    obtain known | known := known
    · exact known
    · rw [ended] at known
      exact absurd known List.not_mem_nil
  constructor
  · exact fun mem => h.reached n (.inl mem)
  · intro path
    induction path with
    | refl => exact visited h.start
    | tail _ edge ih => exact visited (h.followed _ ih _ edge)

end Explores

/-- A search for nothing in particular visits what can be reached. -/
theorem mem_visited_search {n : Nat} :
    n ∈ (g.search (fun _ => false) (.start a)).visited ↔ ReflTransGen (Joins g.edges) a n := by
  obtain ⟨kept, ended⟩ := (Explores.initial g (fun _ => false) a).search
  refine kept.mem_visited ?_
  unfold next? at ended
  split at ended
  · next empty => exact empty
  · cases ended

/-- A search for a block ends with it on top of the stack if it can be reached, and else with
nothing there. -/
theorem hasPath_iff {b : Nat} : g.hasPath a b = true ↔ ReflTransGen (Joins g.edges) a b := by
  obtain ⟨kept, ended⟩ := (Explores.initial g (· == b) a).search
  unfold hasPath
  generalize g.search (· == b) (.start a) = s at kept ended
  unfold next? at ended
  split at ended
  · next empty =>
    have missed : ¬ReflTransGen (Joins g.edges) a b := fun path =>
      absurd (kept.missed b ((kept.mem_visited empty).2 path)) (by simp)
    simp [empty, missed]
  · next n rest top =>
    split at ended
    · next goal =>
      obtain rfl : n = b := by simpa using goal
      have path := kept.reached n (.inr (by rw [top]; exact List.mem_cons_self))
      simp [top, path]
    · cases ended

/-! ### What is said about reachability -/

theorem mem_reachable {n : Nat} :
    n ∈ g.reachable ↔ n < g.blocks.length ∧ ReflTransGen (Joins g.edges) g.entry n := by
  simp only [reachable, List.mem_filter, List.mem_range, List.contains_iff_mem, mem_visited_search]

/-- The entry is a block of the graph, and so are both ends of every edge. -/
structure IsNumbered (g : Graph) : Prop where
  entry : g.entry < g.blocks.length
  edges : ∀ e ∈ g.edges, e.source < g.blocks.length ∧ e.target < g.blocks.length

/-- What can be reached from the entry is a block of the graph. -/
theorem IsNumbered.lt (h : g.IsNumbered) {n : Nat}
    (path : ReflTransGen (Joins g.edges) g.entry n) : n < g.blocks.length := by
  induction path with
  | refl => exact h.entry
  | tail _ edge _ =>
    obtain ⟨e, he, -, rfl⟩ := edge
    exact (h.edges e he).2

/-- In every graph whose edges join its blocks, searches end, after at most one pass for each edge
and one more, and they say what paths there are: the reachable blocks are those to which edges lead
from the entry, the unreachable ones are the others in the order of their numbers, and a path leads
from one block to another just when edges do. -/
theorem reachable_iff_hasPath (h : g.IsNumbered) :
    (∀ goal a, ∃ k ≤ g.edges.length + 1,
      (g.pass goal)^[k] (.start a) = g.search goal (.start a) ∧
        g.next? goal (g.search goal (.start a)) = none) ∧
      (∀ n, n ∈ g.reachable ↔ ReflTransGen (Joins g.edges) g.entry n) ∧
      g.reachable.Pairwise (· < ·) ∧
      g.unreachable = (List.range g.blocks.length).filter (fun n => n ∉ g.reachable) ∧
      (∀ a b, g.hasPath a b = true ↔ ReflTransGen (Joins g.edges) a b) ∧
      ∀ b, b ∈ g.reachable ↔ g.hasPath g.entry b = true := by
  have reached (n : Nat) : n ∈ g.reachable ↔ ReflTransGen (Joins g.edges) g.entry n :=
    mem_reachable.trans (and_iff_right_of_imp h.lt)
  refine ⟨fun goal a => ?_, reached, ?_, ?_, fun a b => hasPath_iff, fun b => ?_⟩
  · exact ⟨g.edges.length + 1, Nat.le_refl _,
      search_eq_iterate (Nat.le_of_eq (passesLeft_start g a)),
      (Explores.initial g goal a).search.2⟩
  · exact List.pairwise_lt_range.filter _
  · refine List.filter_congr fun n _ => ?_
    rw [Bool.eq_iff_iff]
    simp [reached, mem_visited_search]
  · rw [reached, hasPath_iff]

/-- A block that leads to itself, two edges between the same blocks, a cycle, and two blocks apart
from the others. -/
def tangled : Graph where
  blocks := [{ kind := .entry }, { kind := .exit }, { kind := .basic }, { kind := .basic },
    { kind := .basic }]
  edges := [⟨0, 2, .sequential⟩, ⟨2, 2, .loopBack⟩, ⟨2, 1, .whenTrue⟩, ⟨2, 1, .whenFalse⟩,
    ⟨1, 0, .loopBack⟩, ⟨3, 4, .sequential⟩, ⟨4, 3, .loopBack⟩]

theorem reachable_iff_hasPath_tangled :
    tangled.IsNumbered ∧ tangled.reachable = [0, 1, 2] ∧ tangled.unreachable = [3, 4] ∧
      ReflTransGen (Joins tangled.edges) 3 3 ∧ ¬ReflTransGen (Joins tangled.edges) 0 3 := by
  have numbered : tangled.IsNumbered := ⟨by decide, by decide⟩
  obtain ⟨-, reached, -, -, path, -⟩ := reachable_iff_hasPath numbered
  exact ⟨numbered, by decide, by decide, (path 3 3).1 (by decide),
    fun h => absurd ((reached 3).2 h) (by decide)⟩

end Graph

end Plc.Flow

/-
The graph of a statement list is well formed, and control never gets stuck in it.

Edges join blocks of the graph, none leads into the entry and none out of the exit.  The blocks hold
the statements of the list in the order of the text, a region with statements in it apart, which is
nothing but these.  From every block, whether or not control ever comes to it, some path leads to
the exit.

* `count_successors` — successors and predecessors count the same edges, in every graph;
* `statements_ofStmt`, `statements_ofList` — the statements that fragments hold;
* `wellFormed_ofList` — what a graph of a statement list is.
-/
import Plc.Proofs.Flow.Drain
import Plc.Tree.Walk
import Mathlib.Data.List.Chain

namespace Plc

/-- The statement is a region with statements in it, which takes no step of its own. -/
def Stmt.isInlined : Stmt → Bool
  | .region _ _ (_ :: _) => true
  | _ => false

namespace Flow

open Relation

namespace Graph

variable {g : Graph}

/-! ### Neighbours and paths -/

/-- As often as one block is a successor of another, the other is a predecessor of it. -/
theorem count_successors (g : Graph) (m n : Nat) :
    (g.successors m).count n = (g.predecessors n).count m := by
  -- both count the edges from the one to the other
  simp only [successors, predecessors, List.count, List.countP_map, List.countP_filter]
  refine List.countP_congr fun e _ => ?_
  simp [and_comm]

/-- Blocks that edges lead to are those that a path leads to. -/
theorem path_of_along {m n : Nat} (h : ReflTransGen (Joins g.edges) m n) :
    ∃ p, g.IsPathBetween m n p := by
  obtain ⟨p, chain, last⟩ := List.exists_isChain_cons_of_relationReflTransGen h
  refine ⟨m :: p, rfl, ?_, chain.imp fun a b hab => mem_successors.mpr hab⟩
  rw [List.getLast?_eq_some_getLast (List.cons_ne_nil m p), last]

/-- A block from which a path leads elsewhere has a successor. -/
theorem successors_ne_nil {m n : Nat} {p : List Nat} (h : g.IsPathBetween m n p) (ne : m ≠ n) :
    g.successors m ≠ [] := by
  obtain ⟨first, last, chain⟩ := h
  match p with
  | [] => simp at first
  | [a] =>
    simp only [List.head?_cons, List.getLast?_singleton, Option.some.injEq] at first last
    exact absurd (first.symm.trans last) ne
  | a :: b :: p =>
    obtain rfl : a = m := by simpa using first
    exact List.ne_nil_of_mem (List.isChain_cons_cons.mp chain).1

/-- What the blocks hold, in the order of their numbers. -/
theorem held_range (g : Graph) :
    g.held (List.range g.blocks.length) = g.blocks.filterMap Block.statement := by
  have numbered (bs : List Block) : (List.range bs.length).flatMap
      (fun n => (bs[n]?.bind Block.statement).toList) = bs.filterMap Block.statement := by
    induction bs with
    | nil => rfl
    | cons b bs ih =>
      rw [List.length_cons, List.range_succ_eq_map, List.flatMap_cons, List.flatMap_map]
      simp only [List.getElem?_cons_succ, List.getElem?_cons_zero, Option.bind_some, ih]
      cases h : b.statement <;> simp [h]
  exact numbered g.blocks

end Graph

/-! ### The statements that fragments hold -/

/-- The statements of a list and of its bodies that have a block of their own. -/
def placed (ss : List Stmt) : List Stmt :=
  ss.filter (!·.isInlined)

namespace Fragment

/-- The statements that the blocks of the fragment hold. -/
def statements (f : Fragment) : List Stmt :=
  f.blocks.filterMap Block.statement

section

variable {a b : Fragment} {n source m : Nat} {kind : EdgeKind} {x y z : Block}

@[simp] theorem statements_andThen : (a.andThen b).statements = a.statements ++ b.statements := by
  simp [statements, Fragment.andThen]

@[simp] theorem statements_orElse :
    (a.orElse source kind b).statements = a.statements ++ b.statements := by
  simp [statements, Fragment.orElse]

@[simp] theorem statements_fallFrom : (a.fallFrom m).statements = a.statements := rfl

/-- A test after the first has no statement of its own. -/
@[simp] theorem statements_addTest {span : Span} {k : BlockKind} :
    (a.addTest source m ⟨k, none, span⟩).statements = a.statements := by
  simp [statements, Fragment.addTest]

@[simp] theorem statements_single : (single n x).statements = x.statement.toList := by
  cases h : x.statement <;> simp [statements, single, h]

@[simp] theorem statements_decision : (decision n x).statements = x.statement.toList :=
  statements_single (n := n)

@[simp] theorem statements_jump {e : Option Edge} :
    (jump n x e).statements = x.statement.toList := by
  cases e <;> exact statements_single (n := n)

@[simp] theorem statements_testFirst :
    (testFirst n x y a).statements =
      x.statement.toList ++ (y.statement.toList ++ a.statements) := by
  cases hx : x.statement <;> cases hy : y.statement <;>
    simp [statements, Fragment.testFirst, hx, hy]

@[simp] theorem statements_testLast :
    (testLast n x y z a).statements =
      x.statement.toList ++ (y.statement.toList ++ (z.statement.toList ++ a.statements)) := by
  cases hx : x.statement <;> cases hy : y.statement <;> cases hz : z.statement <;>
    simp [statements, Fragment.testLast, hx, hy, hz]

end

@[simp] theorem placed_append (ss ts : List Stmt) : placed (ss ++ ts) = placed ss ++ placed ts :=
  List.filter_append ss ts

@[simp] theorem placed_nil : placed [] = [] := rfl

theorem placed_cons {s : Stmt} (h : s.isInlined = false) (ss : List Stmt) :
    placed (s :: ss) = s :: placed ss := by
  simp [placed, h]

theorem placed_inlined {s : Stmt} (h : s.isInlined = true) (ss : List Stmt) :
    placed (s :: ss) = placed ss := by
  simp [placed, h]

mutual

theorem statements_ofStmt (loop : Option Loop) (n : Nat) :
    ∀ s, (ofStmt loop n s).statements = placed s.flatten
  -- The recursion follows the building of the fragment; the branches are listed before the `ELSE`
  -- part, as in the flattened statement.
  | .ifThen p (.mk q c body) elsifs otherwise => by
    rw [ofStmt_ifThen, Stmt.flatten_ifThen, placed_cons rfl]
    have known := statements_ofElsifs loop n n ((decision n
      ⟨.branch, some (.ifThen p (.mk q c body) elsifs otherwise), q⟩).orElse n .whenTrue
        (ofList loop (n + 1) body)) elsifs
    cases otherwise with
    | some ss => simp [elseDo, known, statements_ofList loop _ body, statements_ofList loop _ ss]
    | none => simp [elseDo, known, statements_ofList loop _ body]
  | .caseOf p c branches otherwise => by
    rw [ofStmt_caseOf, Stmt.flatten_caseOf, placed_cons rfl]
    have known := statements_ofBranches loop n
      (decision n ⟨.branch, some (.caseOf p c branches otherwise), p⟩) branches
    cases otherwise with
    | some ss => simp [elseDo, known, statements_ofList loop _ ss]
    | none => simp [elseDo, known]
  | .forLoop _ _ _ _ _ body => by
    rw [ofStmt, Stmt.flatten, placed_cons rfl]
    simp [statements_ofList _ (n + 2) body]
  | .whileLoop _ _ body => by
    rw [ofStmt, Stmt.flatten, placed_cons rfl]
    simp [statements_ofList _ (n + 2) body]
  | .repeatLoop _ body _ => by
    rw [ofStmt, Stmt.flatten, placed_cons rfl]
    simp [statements_ofList _ (n + 3) body]
  | .region _ _ [] => statements_single
  -- A region with statements has no block of its own, and is left out on the other side too.
  | .region _ _ (first :: rest) => by
    rw [ofStmt, Stmt.flatten, placed_inlined rfl, Stmt.flattenAll, placed_append,
      statements_ofTail, statements_ofStmt loop n first]
  | .leave _ _ | .exitLoop _ | .nextPass _ => statements_jump
  | .assignment .. | .call .. | .invoke .. | .empty _ | .goto .. | .label .. => statements_single

theorem statements_ofList (loop : Option Loop) (n : Nat) :
    ∀ ss, (ofList loop n ss).statements = placed (Stmt.flattenAll ss)
  | [] => rfl
  | s :: ss => by
    rw [ofList, Stmt.flattenAll, placed_append, statements_ofTail, statements_ofStmt loop n s]

theorem statements_ofTail (loop : Option Loop) (n : Nat) (done : Fragment) :
    ∀ ss, (ofTail loop n done ss).statements = done.statements ++ placed (Stmt.flattenAll ss)
  | [] => (List.append_nil _).symm
  | s :: ss => by
    rw [ofTail, Stmt.flattenAll, placed_append, statements_ofTail loop n _ ss, statements_andThen,
      statements_ofStmt loop _ s, List.append_assoc]

theorem statements_ofElsifs (loop : Option Loop) (n source : Nat) (done : Fragment) :
    ∀ bs, (ofElsifs loop n source done bs).1.statements =
      done.statements ++ placed (IfBranch.flattenAll bs)
  | [] => (List.append_nil _).symm
  | .mk _ _ body :: bs => by
    rw [ofElsifs, IfBranch.flattenAll, placed_append, statements_ofElsifs loop n _ _ bs,
      statements_orElse, statements_addTest, statements_ofList loop _ body, List.append_assoc]

theorem statements_ofBranches (loop : Option Loop) (n : Nat) (done : Fragment) :
    ∀ bs, (ofBranches loop n done bs).statements =
      done.statements ++ placed (CaseBranch.flattenAll bs)
  | [] => (List.append_nil _).symm
  | .mk _ _ body :: bs => by
    rw [ofBranches, CaseBranch.flattenAll, placed_append, statements_ofBranches loop n _ bs,
      statements_orElse, statements_ofList loop _ body, List.append_assoc]

end

end Fragment

/-! ### The graph of a list -/

/-- A graph whose edges join its blocks, into whose entry and out of whose exit none leads, and in
which control can go on from each block, and so at last to the exit. -/
structure Graph.IsWellFormed (g : Graph) : Prop where
  entry : g.entry < g.blocks.length
  exit : g.exit < g.blocks.length
  edges : ∀ e ∈ g.edges, e.source < g.blocks.length ∧ e.target < g.blocks.length
  enters : g.predecessors g.entry = []
  leaves : g.successors g.exit = []
  converse : ∀ m n, (g.successors m).count n = (g.predecessors n).count m
  goesOn : ∀ n < g.blocks.length, n ≠ g.exit → g.successors n ≠ []
  arrives : ∀ n < g.blocks.length, ∃ p, g.IsPathBetween n g.exit p

/-- It is enough to know between which blocks edges lead, and that edges lead to the exit. -/
theorem Graph.isWellFormed_of_joins {g : Graph} (entry : g.entry < g.blocks.length)
    (exit : g.exit < g.blocks.length)
    (edges : ∀ m m', Joins g.edges m m' →
      m < g.blocks.length ∧ m ≠ g.exit ∧ m' < g.blocks.length ∧ m' ≠ g.entry)
    (arrives : ∀ n < g.blocks.length, ReflTransGen (Joins g.edges) n g.exit) :
    g.IsWellFormed := by
  have path (n : Nat) (h : n < g.blocks.length) := path_of_along (arrives n h)
  refine ⟨entry, exit, fun e he => ?_, ?_, ?_, count_successors g, fun n h ne => ?_, path⟩
  · obtain ⟨source, -, target, -⟩ := edges e.source e.target ⟨e, he, rfl, rfl⟩
    exact ⟨source, target⟩
  · refine List.eq_nil_iff_forall_not_mem.mpr fun m hm => ?_
    exact (edges m _ (mem_successors.mp (mem_successors_iff.mpr hm))).2.2.2 rfl
  · refine List.eq_nil_iff_forall_not_mem.mpr fun m hm => ?_
    exact (edges _ m (mem_successors.mp hm)).2.1 rfl
  · obtain ⟨p, isPath⟩ := path n h
    exact successors_ne_nil isPath ne

section

variable (s : Stmt) (ss : List Stmt)

theorem length_blocks_ofList : (Graph.ofList (s :: ss)).blocks.length =
    (Fragment.ofList none 2 (s :: ss)).blocks.length + 2 := by
  simp [Graph.ofList]

/-- The edges of the graph are those of the fragment, one from the entry, and those to the exit. -/
theorem joins_ofList {m m' : Nat} : Joins (Graph.ofList (s :: ss)).edges m m' ↔
    Joins (Fragment.ofList none 2 (s :: ss)).edges m m' ∨ (m = 0 ∧ m' = 2) ∨
      (m ∈ (Fragment.ofList none 2 (s :: ss)).exits ∧ m' = 1) ∨
        (m ∈ (Fragment.ofList none 2 (s :: ss)).leaves ∧ m' = 1) := by
  simp [Graph.ofList, (Fragment.fits_ofList none 2 (s :: ss)).first, eq_comm]

/-- Edges start at the entry or in the fragment, and end at the exit or in the fragment. -/
theorem bounds_ofList {m m' : Nat} (h : Joins (Graph.ofList (s :: ss)).edges m m') :
    (m = 0 ∨ (Fragment.ofList none 2 (s :: ss)).Holds 2 m) ∧
      (m' = 1 ∨ (Fragment.ofList none 2 (s :: ss)).Holds 2 m') := by
  have fits := Fragment.fits_ofList none 2 (s :: ss)
  have drains := Fragment.drains_ofList none 2 (s :: ss)
  rcases (joins_ofList s ss).mp h with inner | ⟨rfl, rfl⟩ | ⟨hm, rfl⟩ | ⟨hm, rfl⟩
  · have target := drains.targets m m' inner
    rw [or_iff_left (Loop.ends_none m')] at target
    exact ⟨.inr (fits.edges m m' inner), .inr target⟩
  · exact ⟨.inl rfl, .inr (Fragment.holds_of_pos fits.nonempty)⟩
  · exact ⟨.inr (fits.exits m hm), .inl rfl⟩
  · exact ⟨.inr (fits.leaves m hm), .inl rfl⟩

/-- Outside of all loops, what leads out of the fragment leads to the exit. -/
theorem along_ofList {n : Nat} (h : n < (Graph.ofList (s :: ss)).blocks.length) :
    ReflTransGen (Joins (Graph.ofList (s :: ss)).edges) n 1 := by
  have inner (m : Nat) (hm : (Fragment.ofList none 2 (s :: ss)).Holds 2 m) :
      ReflTransGen (Joins (Graph.ofList (s :: ss)).edges) m 1 := by
    obtain ⟨m', along, outlet⟩ := (Fragment.drains_ofList none 2 (s :: ss)).drains m hm
    have whole : ReflTransGen (Joins (Graph.ofList (s :: ss)).edges) m m' :=
      ReflTransGen.mono (fun x y hxy => (joins_ofList s ss).mpr (.inl hxy)) _ _ along
    simp only [Fragment.Outlet, Loop.ends_none, Option.not_mem_none, or_false] at outlet
    exact whole.tail ((joins_ofList s ss).mpr (by tauto))
  rw [length_blocks_ofList] at h
  obtain rfl | rfl | low : n = 0 ∨ n = 1 ∨ 2 ≤ n := by omega
  · have nonempty := (Fragment.fits_ofList none 2 (s :: ss)).nonempty
    exact .head ((joins_ofList s ss).mpr (.inr (.inl ⟨rfl, rfl⟩)))
      (inner 2 (Fragment.holds_of_pos nonempty))
  · exact .refl
  · exact inner n ⟨low, by omega⟩

end

/-- The graph of every statement list is well formed: a block's number is its place, edges join
blocks of the graph, none leads into the entry and none out of the exit, successors and predecessors
count the same edges, every block but the exit has a successor, and from every block, reachable or
not, a path leads to the exit.  Its blocks hold, in the order of their numbers, each statement of
the list and of its bodies once, in the order of the text, but for the regions with statements in
them. -/
theorem wellFormed_ofList (ss : List Stmt) :
    (Graph.ofList ss).IsWellFormed ∧
      (Graph.ofList ss).held (List.range (Graph.ofList ss).blocks.length) =
        (Stmt.flattenAll ss).filter (!·.isInlined) := by
  rw [Graph.held_range]
  cases ss with
  | nil =>
    -- the empty list has no fragment, only an edge from the entry to the exit
    refine ⟨Graph.isWellFormed_of_joins (by decide) (by decide) (fun m m' h => ?_) ?_, rfl⟩
    · obtain ⟨rfl, rfl⟩ : 0 = m ∧ 1 = m' := by simpa [Graph.ofList] using h
      exact ⟨by decide, by decide, by decide, by decide⟩
    · intro n h
      obtain rfl | rfl : n = 0 ∨ n = 1 := by
        have two : (Graph.ofList []).blocks.length = 2 := rfl
        omega
      · exact .single (by simp [Graph.ofList])
      · exact .refl
  | cons s ss =>
    have length := length_blocks_ofList s ss
    refine ⟨Graph.isWellFormed_of_joins ?_ ?_ (fun m m' h => ?_) fun n h =>
      along_ofList s ss h, Fragment.statements_ofList none 2 (s :: ss)⟩
    · show 0 < _
      omega
    · show 1 < _
      omega
    · show m < _ ∧ m ≠ 1 ∧ m' < _ ∧ m' ≠ 0
      obtain ⟨source, target⟩ := bounds_ofList s ss h
      have nonempty := (Fragment.fits_ofList none 2 (s :: ss)).nonempty
      simp only [Fragment.Holds] at source target
      omega

end Flow

end Plc

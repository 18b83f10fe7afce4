/-
The cyclomatic number of a statement list.

In a fragment each block has one way on, to which a decision adds the others: edges, exits and leaves
together are as many as the blocks and the ways that are added.  Putting fragments together only
adds up what they count, so it does not matter whether control ever comes to a block.

* `Stmt.ways`, `Stmt.tests` — the ways that a statement adds, and the blocks that decide on them;
* `Fragment.Weighs` — what a fragment counts, with a rule for each way to build one;
* `weighs_ofStmt`, `weighs_ofList` — fragments count what is in their statements;
* `cyclomatic_ofList` — edges less blocks plus two, and both measures of complexity.
-/
import Plc.Proofs.Flow.Fragment
import Plc.Tree.Walk
import Mathlib.Algebra.GroupWithZero.Nat
import Mathlib.Algebra.Ring.Int.Defs

namespace Plc

/-! ### What statements count -/

namespace Stmt

/-- The statement is an `IF`. -/
def isIf : Stmt → Bool
  | .ifThen _ _ _ _ => true
  | _ => false

/-- The statement is a loop. -/
def isLoop : Stmt → Bool
  | .forLoop _ _ _ _ _ _ | .whileLoop _ _ _ | .repeatLoop _ _ _ => true
  | _ => false

/-- The statement is a `CASE`. -/
def isCase : Stmt → Bool
  | .caseOf _ _ _ _ => true
  | _ => false

/-- The number of `ELSIF` branches of the statement itself. -/
def elsifCount : Stmt → Nat
  | .ifThen _ _ elsifs _ => elsifs.length
  | _ => 0

/-- The number of `CASE` branches of the statement itself. -/
def choiceCount : Stmt → Nat
  | .caseOf _ _ branches _ => branches.length
  | _ => 0

/-- The ways on that the statement adds to the one that there is without it. -/
def ways : Stmt → Nat
  | .ifThen _ _ elsifs _ => 1 + elsifs.length
  | .caseOf _ _ branches _ => branches.length
  | .forLoop _ _ _ _ _ _ | .whileLoop _ _ _ | .repeatLoop _ _ _ => 1
  | _ => 0

/-- The blocks of the statement itself that decide. -/
def tests : Stmt → Nat
  | .ifThen _ _ elsifs _ => 1 + elsifs.length
  | .caseOf _ _ _ _ | .forLoop _ _ _ _ _ _ | .whileLoop _ _ _ | .repeatLoop _ _ _ => 1
  | _ => 0

end Stmt

/-- What some statements count together. -/
def Stmt.total (count : Stmt → Nat) (ss : List Stmt) : Nat :=
  (ss.map count).sum

namespace Flow

open Stmt

section

variable {count : Stmt → Nat}

@[simp] theorem total_nil : total count [] = 0 := rfl

@[simp] theorem total_cons (s : Stmt) (ss : List Stmt) :
    total count (s :: ss) = count s + total count ss := rfl

@[simp] theorem total_append (ss ts : List Stmt) :
    total count (ss ++ ts) = total count ss + total count ts := by
  simp only [total, List.map_append, List.sum_append]

end

/-- Ways are added by each `IF`, each `ELSIF`, each loop and each branch of a `CASE`. -/
theorem total_ways (ss : List Stmt) :
    total ways ss = ss.countP isIf + total elsifCount ss + ss.countP isLoop +
      total choiceCount ss := by
  induction ss with
  | nil => rfl
  | cons s ss ih =>
    rw [total_cons, total_cons, total_cons, List.countP_cons, List.countP_cons, ih]
    cases s <;> simp only [ways, isIf, elsifCount, isLoop, choiceCount, if_true, if_false,
      Bool.false_eq_true] <;> omega

/-- A `CASE` has one block that decides, whatever the number of its branches. -/
theorem total_ways_eq_tests (ss : List Stmt) :
    (total ways ss : Int) =
      total tests ss + ((ss.filter isCase).map fun s => (s.choiceCount : Int) - 1).sum := by
  induction ss with
  | nil => rfl
  | cons s ss ih =>
    rw [total_cons, total_cons, List.filter_cons, Int.natCast_add, Int.natCast_add, ih]
    cases s <;> simp only [ways, tests, isCase, choiceCount, if_true, if_false, List.map_cons,
      List.sum_cons, Bool.false_eq_true] <;> omega

/-! ### What fragments count -/

namespace Fragment

/-- The fragment has as many edges, exits and leaves as blocks and ways that are added, and that many
of its blocks decide. -/
structure Weighs (f : Fragment) (ways : Int) (tests : Nat) : Prop where
  ways : (f.edges.length + f.exits.length + f.leaves.length : Int) = f.blocks.length + ways
  tests : f.blocks.countP Block.decides = tests

variable {a b : Fragment} {k k' : Int} {t t' n m p : Nat} {x y z : Block} {e : EdgeKind}

theorem Weighs.of_eq (h : a.Weighs k t) (ways : k = k') (tests : t = t') : a.Weighs k' t' := by
  rwa [← ways, ← tests]

theorem weighs_single (h : x.decides = false) : (single n x).Weighs 0 0 := by
  refine ⟨rfl, ?_⟩
  rw [single, List.countP_singleton, h]
  rfl

/-- A jump has an edge or is a leave. -/
theorem weighs_jump (h : x.decides = false) (e : Option Edge) : (jump n x e).Weighs 0 0 := by
  cases e <;> exact ⟨rfl, (weighs_single (n := n) h).tests⟩

/-- A decision has no way on until it is given one. -/
theorem weighs_decision (h : x.decides = true) : (decision n x).Weighs (-1) 1 := by
  refine ⟨rfl, ?_⟩
  rw [decision, List.countP_singleton, h]
  rfl

/-- The exits of the first fragment become edges. -/
theorem Weighs.andThen (ha : a.Weighs k t) (hb : b.Weighs k' t') :
    (a.andThen b).Weighs (k + k') (t + t') := by
  obtain ⟨ways, tests⟩ := ha
  obtain ⟨ways', tests'⟩ := hb
  refine ⟨?_, ?_⟩
  · simp only [Fragment.andThen, List.length_append, List.length_map]
    omega
  · rw [Fragment.andThen, List.countP_append, tests, tests']

theorem Weighs.orElse (ha : a.Weighs k t) (hb : b.Weighs k' t') :
    (a.orElse p e b).Weighs (k + k' + 1) (t + t') := by
  obtain ⟨ways, tests⟩ := ha
  obtain ⟨ways', tests'⟩ := hb
  refine ⟨?_, ?_⟩
  · simp only [Fragment.orElse, List.length_append, List.length_singleton]
    omega
  · rw [Fragment.orElse, List.countP_append, tests, tests']

theorem Weighs.addTest (ha : a.Weighs k t) (h : x.decides = true) :
    (a.addTest p m x).Weighs k (t + 1) := by
  obtain ⟨ways, tests⟩ := ha
  refine ⟨?_, ?_⟩
  · simp only [Fragment.addTest, List.length_append, List.length_singleton]
    omega
  · rw [Fragment.addTest, List.countP_append, tests, List.countP_singleton, h]
    rfl

theorem Weighs.fallFrom (ha : a.Weighs k t) : (a.fallFrom m).Weighs (k + 1) t := by
  obtain ⟨ways, tests⟩ := ha
  refine ⟨?_, tests⟩
  simp only [Fragment.fallFrom, List.length_append, List.length_singleton]
  omega

theorem Weighs.testFirst (ha : a.Weighs k t) (hx : x.decides = true) (hy : y.decides = false) :
    (testFirst n x y a).Weighs (k + 1) (t + 1) := by
  obtain ⟨ways, tests⟩ := ha
  refine ⟨?_, ?_⟩
  · simp only [Fragment.testFirst, List.length_append, List.length_map, List.length_cons,
      List.length_nil]
    omega
  · simp only [Fragment.testFirst, List.countP_cons, tests, hx, hy, if_true, if_false,
      Bool.false_eq_true, Nat.add_zero]

theorem Weighs.testLast (ha : a.Weighs k t) (hx : x.decides = false) (hy : y.decides = true)
    (hz : z.decides = false) : (testLast n x y z a).Weighs (k + 1) (t + 1) := by
  obtain ⟨ways, tests⟩ := ha
  refine ⟨?_, ?_⟩
  · simp only [Fragment.testLast, List.length_append, List.length_map, List.length_cons,
      List.length_nil]
    omega
  · simp only [Fragment.testLast, List.countP_cons, tests, hx, hy, hz, if_true, if_false,
      Bool.false_eq_true, Nat.add_zero]

/-! ### Fragments of statements -/

mutual

theorem weighs_ofStmt (loop : Option Loop) (n : Nat) :
    ∀ s, (ofStmt loop n s).Weighs (total ways s.flatten) (total tests s.flatten)
  -- The recursion follows the building of the fragment. A test begins with one edge too few, which
  -- its first branch makes up for.
  | .ifThen p (.mk q c body) elsifs otherwise => by
    rw [ofStmt_ifThen, flatten_ifThen]
    have test : (decision n ⟨.branch, some (.ifThen p (.mk q c body) elsifs otherwise), q⟩).Weighs
        (-1) 1 := weighs_decision rfl
    have known := weighs_ofElsifs loop n n
      (test.orElse (p := n) (e := .whenTrue) (weighs_ofList loop (n + 1) body)) elsifs
    refine (weighs_elseDo loop n _ known otherwise).of_eq ?_ ?_ <;>
      simp only [total_cons, total_append, ways, tests] <;> omega
  | .caseOf p c branches otherwise => by
    rw [ofStmt_caseOf, flatten_caseOf]
    have test : (decision n ⟨.branch, some (.caseOf p c branches otherwise), p⟩).Weighs (-1) 1 :=
      weighs_decision rfl
    refine (weighs_elseDo loop n n (weighs_ofBranches loop n test branches) otherwise).of_eq ?_ ?_ <;>
      simp only [total_cons, total_append, ways, tests] <;> omega
  | .forLoop p control start stop step body => by
    refine ((weighs_ofList (some ⟨n, n + 1⟩) (n + 2) body).testFirst rfl rfl).of_eq ?_ ?_ <;>
      simp only [flatten, total_cons, ways, tests] <;> omega
  | .whileLoop p c body => by
    refine ((weighs_ofList (some ⟨n, n + 1⟩) (n + 2) body).testFirst rfl rfl).of_eq ?_ ?_ <;>
      simp only [flatten, total_cons, ways, tests] <;> omega
  | .repeatLoop p body c => by
    refine ((weighs_ofList (some ⟨n + 1, n + 2⟩) (n + 3) body).testLast rfl rfl rfl).of_eq ?_ ?_ <;>
      simp only [flatten, total_cons, ways, tests] <;> omega
  | .region p title [] => weighs_single rfl
  | .region p title (first :: rest) => by
    refine (weighs_ofTail loop n (weighs_ofStmt loop n first) rest).of_eq ?_ ?_ <;>
      simp only [flatten, flattenAll_cons, total_cons, total_append, ways, tests] <;> omega
  | .leave _ _ | .exitLoop _ | .nextPass _ => weighs_jump rfl _
  | .assignment .. | .call .. | .invoke .. | .empty _ | .goto .. | .label .. => weighs_single rfl

theorem weighs_ofList (loop : Option Loop) (n : Nat) :
    ∀ ss, (ofList loop n ss).Weighs (total ways (flattenAll ss)) (total tests (flattenAll ss))
  | [] => weighs_single rfl
  | s :: ss => by
    rw [flattenAll_cons, total_append, total_append, Int.natCast_add]
    exact weighs_ofTail loop n (weighs_ofStmt loop n s) ss

/-- The other choice of a decision may be to do nothing. -/
theorem weighs_elseDo (loop : Option Loop) (n source : Nat) {done : Fragment} {k : Int} {t : Nat}
    (h : done.Weighs k t) :
    ∀ otherwise, (elseDo loop n source done otherwise).Weighs
      (k + 1 + total ways (flattenAll (otherwise.getD [])))
      (t + total tests (flattenAll (otherwise.getD [])))
  | none => h.fallFrom.of_eq (by simp) (by simp)
  | some ss => (h.orElse (weighs_ofList loop _ ss)).of_eq (by simp only [Option.getD_some]; omega) rfl

theorem weighs_ofTail (loop : Option Loop) (n : Nat) {done : Fragment} {k : Int} {t : Nat}
    (h : done.Weighs k t) :
    ∀ ss, (ofTail loop n done ss).Weighs (k + total ways (flattenAll ss))
      (t + total tests (flattenAll ss))
  | [] => h.of_eq (by simp) (by simp)
  | s :: ss => by
    refine (weighs_ofTail loop n (h.andThen (weighs_ofStmt loop _ s)) ss).of_eq ?_ ?_ <;>
      simp only [flattenAll_cons, total_append] <;> omega

theorem weighs_ofElsifs (loop : Option Loop) (n source : Nat) {done : Fragment} {k : Int} {t : Nat}
    (h : done.Weighs k t) :
    ∀ bs, (ofElsifs loop n source done bs).1.Weighs
      (k + bs.length + total ways (IfBranch.flattenAll bs))
      (t + bs.length + total tests (IfBranch.flattenAll bs))
  | [] => h.of_eq (by simp [IfBranch.flattenAll]) (by simp [IfBranch.flattenAll])
  | .mk _ _ body :: bs => by
    refine (weighs_ofElsifs loop n _ ((h.addTest rfl).orElse (weighs_ofList loop _ body)) bs).of_eq
      ?_ ?_ <;>
      simp only [IfBranch.flattenAll, total_append, List.length_cons] <;> omega

theorem weighs_ofBranches (loop : Option Loop) (n : Nat) {done : Fragment} {k : Int} {t : Nat}
    (h : done.Weighs k t) :
    ∀ bs, (ofBranches loop n done bs).Weighs
      (k + bs.length + total ways (CaseBranch.flattenAll bs))
      (t + total tests (CaseBranch.flattenAll bs))
  | [] => h.of_eq (by simp [CaseBranch.flattenAll]) (by simp [CaseBranch.flattenAll])
  | .mk _ _ body :: bs => by
    refine (weighs_ofBranches loop n (h.orElse (weighs_ofList loop _ body)) bs).of_eq ?_ ?_ <;>
      simp only [CaseBranch.flattenAll, total_append, List.length_cons] <;> omega

end

end Fragment

/-! ### The whole graph -/

/-- The exits and leaves of the fragment become edges to the exit, and one edge leads from the
entry into it. -/
theorem weighs_graph (ss : List Stmt) :
    ((Graph.ofList ss).edges.length : Int) - (Graph.ofList ss).blocks.length + 2 =
        1 + total ways (flattenAll ss) ∧
      (Graph.ofList ss).decisionComplexity = 1 + total tests (flattenAll ss) := by
  cases ss with
  | nil => exact ⟨rfl, rfl⟩
  | cons s ss =>
    obtain ⟨ways, tests⟩ := Fragment.weighs_ofList none 2 (s :: ss)
    refine ⟨?_, ?_⟩
    · simp only [Graph.ofList, List.length_append, List.length_map, List.length_cons,
        List.length_nil]
      omega
    · simp only [Graph.decisionComplexity, Graph.ofList, List.countP_append, tests]
      simp [Block.decides]

/-- Edges less blocks plus two, in the graph of any statement list, is one more than the number of
its `IF`s, `ELSIF`s, loops and `CASE` branches, nested ones included.  It is never less than one, so
that it is the cyclomatic number, which exceeds the decision complexity by what the `CASE`s have in
branches beyond one each. -/
theorem cyclomatic_ofList (ss : List Stmt) :
    ((Graph.ofList ss).edges.length : Int) - (Graph.ofList ss).blocks.length + 2 =
        1 + ((flattenAll ss).countP isIf + ((flattenAll ss).map elsifCount).sum +
          (flattenAll ss).countP isLoop + ((flattenAll ss).map choiceCount).sum : Nat) ∧
      ((Graph.ofList ss).cyclomatic : Int) =
        (Graph.ofList ss).edges.length - (Graph.ofList ss).blocks.length + 2 ∧
      ((Graph.ofList ss).cyclomatic : Int) =
        (Graph.ofList ss).decisionComplexity +
          (((flattenAll ss).filter isCase).map fun s => (s.choiceCount : Int) - 1).sum := by
  obtain ⟨edges, tests⟩ := weighs_graph ss
  have cyclomatic : ((Graph.ofList ss).cyclomatic : Int) =
      (Graph.ofList ss).edges.length - (Graph.ofList ss).blocks.length + 2 := by
    -- there is at least one way, so that neither the floor nor the subtraction cuts anything off
    rw [Graph.cyclomatic]
    omega
  refine ⟨?_, cyclomatic, ?_⟩
  · rw [edges, total_ways]
    rfl
  · rw [cyclomatic, edges, tests, total_ways_eq_tests]
    omega

end Flow

end Plc

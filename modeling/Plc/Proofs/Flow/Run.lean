/-
What a statement list can do, and the paths of a graph.

Conditions, `CASE` choices and loop tests are chosen freely, so a list has many runs.
A run is the list of the statements that it executes or tests, and an `Ending` says
where control goes after it:

* `Runs`, `RunsAll` — the runs of a statement and of a list;
* `Passes`, `Rounds` — the runs of a loop that tests before or after each pass;
* `Graph.IsPath` — a path from the entry of a graph to its exit, and `Graph.held` the
  statements along it.

`Graph.Leads` is the form in which paths are used in proofs: what is held from a block
up to the exit.
-/
import Plc.Flow.Build
import Mathlib.Tactic.Common

namespace Plc.Flow

/-! ### Runs -/

/-- Where control goes after a run of some statements. -/
inductive Ending where
  /-- To what follows. -/
  | done
  /-- Out of the innermost loop. -/
  | exit
  /-- To the next test of the innermost loop. -/
  | next
  /-- To the end of the whole list. -/
  | leave
  deriving DecidableEq

/-- After a loop's body ends so, the loop is tested. -/
def Ending.resumes : Ending → Bool
  | .done | .next => true
  | .exit | .leave => false

/-- The runs of a loop `s` that is tested before each pass, from the runs of its body. -/
inductive Passes (s : Stmt) (body : List Stmt → Ending → Prop) : List Stmt → Ending → Prop
  | stop : Passes s body [s] .done
  | again {t t' : List Stmt} {e e' : Ending} (pass : body t e) (resumes : e.resumes = true)
      (others : Passes s body t' e') : Passes s body (s :: t ++ t') e'
  | broken {t : List Stmt} (pass : body t .exit) : Passes s body (s :: t) .done
  | left {t : List Stmt} (pass : body t .leave) : Passes s body (s :: t) .leave

/-- The runs of a loop `s` that is tested after each pass, from the runs of its body. -/
inductive Rounds (s : Stmt) (body : List Stmt → Ending → Prop) : List Stmt → Ending → Prop
  | stop {t : List Stmt} {e : Ending} (pass : body t e) (resumes : e.resumes = true) :
      Rounds s body (t ++ [s]) .done
  | again {t t' : List Stmt} {e e' : Ending} (pass : body t e) (resumes : e.resumes = true)
      (others : Rounds s body t' e') : Rounds s body (t ++ s :: t') e'
  | broken {t : List Stmt} (pass : body t .exit) : Rounds s body t .done
  | left {t : List Stmt} (pass : body t .leave) : Rounds s body t .leave

mutual

/-- The statement can run through the statements `t` and end with `e`. -/
def Runs (s : Stmt) (t : List Stmt) (e : Ending) : Prop :=
  match s with
  | .ifThen _ (.mk _ _ body) elsifs otherwise =>
    ∃ t', t = s :: t' ∧ (RunsAll body t' e ∨ RunsElsif elsifs t' e ∨
      match otherwise with
      | some ss => RunsAll ss t' e
      | none => t' = [] ∧ e = .done)
  | .caseOf _ _ branches otherwise =>
    ∃ t', t = s :: t' ∧ (RunsBranch branches t' e ∨
      match otherwise with
      | some ss => RunsAll ss t' e
      | none => t' = [] ∧ e = .done)
  | .forLoop _ _ _ _ _ body => Passes s (RunsAll body) t e
  | .whileLoop _ _ body => Passes s (RunsAll body) t e
  | .repeatLoop _ body _ => Rounds s (RunsAll body) t e
  | .region _ _ (first :: rest) => RunsAll (first :: rest) t e
  | .leave _ _ => t = [s] ∧ e = .leave
  | .exitLoop _ => t = [s] ∧ e = .exit
  | .nextPass _ => t = [s] ∧ e = .next
  | _ => t = [s] ∧ e = .done

/-- The list can run through the statements `t` and end with `e`: each statement but the last one
that runs is left for what follows. -/
def RunsAll (ss : List Stmt) (t : List Stmt) (e : Ending) : Prop :=
  match ss with
  | [] => t = [] ∧ e = .done
  | s :: ss =>
    (∃ t₁ t₂, t = t₁ ++ t₂ ∧ Runs s t₁ .done ∧ RunsAll ss t₂ e) ∨ (Runs s t e ∧ e ≠ .done)

/-- The body of one of the branches can run so. -/
def RunsElsif (bs : List IfBranch) (t : List Stmt) (e : Ending) : Prop :=
  match bs with
  | [] => False
  | .mk _ _ body :: bs => RunsAll body t e ∨ RunsElsif bs t e

/-- The body of one of the branches can run so. -/
def RunsBranch (bs : List CaseBranch) (t : List Stmt) (e : Ending) : Prop :=
  match bs with
  | [] => False
  | .mk _ _ body :: bs => RunsAll body t e ∨ RunsBranch bs t e

end

theorem runsAll_cons {s : Stmt} {ss t : List Stmt} {e : Ending} :
    RunsAll (s :: ss) t e ↔
      (∃ t₁ t₂, t = t₁ ++ t₂ ∧ Runs s t₁ .done ∧ RunsAll ss t₂ e) ∨ (Runs s t e ∧ e ≠ .done) := by
  rw [RunsAll]

/-! ### Paths -/

namespace Graph

/-- The statement that a block runs or decides on, if it holds one. -/
def heldAt (g : Graph) (n : Nat) : List Stmt :=
  (g.blocks[n]?.bind Block.statement).toList

/-- The statements that the blocks of a list hold. -/
def held (g : Graph) (p : List Nat) : List Stmt :=
  p.flatMap g.heldAt

/-- The list of blocks leads along edges from one block to another. -/
def IsPathBetween (g : Graph) (m n : Nat) (p : List Nat) : Prop :=
  p.head? = some m ∧ p.getLast? = some n ∧ p.IsChain fun a b => b ∈ g.successors a

/-- The list of blocks leads along edges from the entry to the exit. -/
def IsPath (g : Graph) (p : List Nat) : Prop :=
  g.IsPathBetween g.entry g.exit p

/-- Some path from the block to the exit holds the given statements. -/
inductive Leads (g : Graph) : Nat → List Stmt → Prop
  | here : Leads g g.exit (g.heldAt g.exit)
  | step {m n : Nat} {t : List Stmt} (edge : n ∈ g.successors m) (rest : Leads g n t) :
      Leads g m (g.heldAt m ++ t)

theorem leads_iff_path {g : Graph} {n : Nat} {t : List Stmt} :
    g.Leads n t ↔ ∃ p, g.IsPathBetween n g.exit p ∧ g.held p = t := by
  constructor
  · intro h
    induction h with
    | here => exact ⟨[g.exit], ⟨rfl, rfl, .singleton _⟩, by simp [held]⟩
    | @step m n t edge _ ih =>
      obtain ⟨p, ⟨first, last, chain⟩, rfl⟩ := ih
      -- A path is not empty, and it begins where the edge goes.
      obtain _ | ⟨a, p⟩ := p
      · simp at first
      obtain rfl : a = n := by simpa using first
      exact ⟨m :: a :: p, ⟨rfl, last, .cons_cons edge chain⟩, rfl⟩
  · rintro ⟨p, ⟨first, last, chain⟩, rfl⟩
    induction p generalizing n with
    | nil => simp at first
    | cons a p ih =>
      obtain rfl : a = n := by simpa using first
      obtain _ | ⟨b, p⟩ := p
      · obtain rfl : a = g.exit := by simpa using last
        simpa [held] using Leads.here
      · rw [List.isChain_cons_cons] at chain
        exact .step chain.1 (ih rfl last chain.2)

/-- The statements held along paths from the entry to the exit. -/
theorem leads_entry_iff {g : Graph} {t : List Stmt} :
    g.Leads g.entry t ↔ ∃ p, g.IsPath p ∧ g.held p = t :=
  leads_iff_path

end Graph

end Plc.Flow

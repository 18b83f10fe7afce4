/-
What is reported as dead code is never reached.

A statement is reported where its list has been left before it and no label has come since.  The
graph of the whole list says the same: control comes to no block of such a statement, nor to one of
the statements inside of it.

* `Graph.not_mem_reachable` — control stays out of blocks that no edge enters from elsewhere;
* `deadCode_ofList` — what is reported about a list are its dead sites;
* `unreachable_of_deadCode` — no block of what is reported can be reached.
-/
import Plc.Proofs.Check.Smell
import Plc.Proofs.Flow.Search
import Plc.Proofs.Flow.Site
import Plc.Proofs.Flow.WellFormed

namespace Plc

/-- The finding is that a statement cannot be reached. -/
def Diagnostic.isDeadCode (d : Diagnostic) : Bool :=
  match d.finding with
  | .deadCode _ => true
  | _ => false

namespace Flow

open Relation Smell Stmt

namespace Graph

variable {g : Graph} {P : Nat → Prop}

/-! ### Blocks that are reached -/

/-- Control does not come into blocks without the entry that no edge enters from elsewhere. -/
theorem not_mem_reachable (entry : ¬P g.entry) (closed : ∀ m m', Joins g.edges m m' → P m' → P m)
    {m : Nat} (h : P m) : m ∉ g.reachable := by
  -- to stay out of the blocks is passed on along every edge
  have out {n : Nat} (path : ReflTransGen (Joins g.edges) g.entry n) : ¬P n := by
    induction path with
    | refl => exact entry
    | tail _ edge ih => exact fun inside => ih (closed _ _ edge inside)
  exact fun reached => out (mem_reachable.1 reached).2 h

end Graph

/-! ### What is reported -/

namespace Site

/-- What is reported about the statement if it is dead. -/
def finding (x : Site) : Diagnostic :=
  ⟨.deadCode "code after RETURN or EXIT", x.stmt.span, .warning, none⟩

/-- What is reported about some sites. -/
def findings (xs : List Site) : List Diagnostic :=
  (xs.filter Site.dead).map finding

@[simp] theorem findings_nil : findings [] = [] := rfl

@[simp] theorem findings_append (xs ys : List Site) :
    findings (xs ++ ys) = findings xs ++ findings ys := by
  simp [findings]

end Site

/-- The findings about dead code among others. -/
def deadCode (ds : List Diagnostic) : List Diagnostic :=
  ds.filter Diagnostic.isDeadCode

@[simp] theorem deadCode_nil : deadCode [] = [] := rfl

@[simp] theorem deadCode_append (ds es : List Diagnostic) :
    deadCode (ds ++ es) = deadCode ds ++ deadCode es :=
  List.filter_append ds es

variable {c : SmellConfig}

instance : Diagnostic.Positional Diagnostic.isDeadCode where
  isPositional d h := by
    unfold Diagnostic.isDeadCode at h
    unfold Diagnostic.isPositional
    split at h
    · next eq => rw [eq]
    · exact absurd h Bool.false_ne_true

@[simp] theorem deadCode_ofValue (e : Expr) : deadCode (ofValue c e) = [] :=
  filter_ofValue e

@[simp] theorem deadCode_ofInputs (args : List Arg) : deadCode (ofInputs c args) = [] :=
  filter_ofInputs args

@[simp] theorem deadCode_ofCondition (e : Expr) : deadCode (ofCondition c e) = [] :=
  filter_ofCondition e

@[simp] theorem deadCode_ofConditions (seen : List String) (es : List Expr) :
    deadCode (ofConditions c seen es) = [] :=
  filter_ofConditions seen es

/-- A finding of another kind, made on some condition. -/
theorem deadCode_ite {p : Prop} [Decidable p] {d : Diagnostic} (h : d.isDeadCode = false) :
    deadCode (if p then [d] else []) = [] := by
  split
  · simp [deadCode, h]
  · rfl

@[simp] theorem deadCode_ofDepth (depth : Nat) (span : Span) : deadCode (ofDepth c depth span) = [] :=
  deadCode_ite rfl

@[simp] theorem deadCode_ofEmpty (severity : Severity) (block : String) (span : Span)
    (body : List Stmt) : deadCode (ofEmpty severity block span body) = [] :=
  filter_ofEmpty severity block span body

/-- A statement is reported where its list has been left before it. -/
theorem deadCode_smells (b : Before) (s : Stmt) :
    deadCode (b.smells c s) =
      if b.dead then [⟨.deadCode "code after RETURN or EXIT", s.span, .warning, none⟩] else [] := by
  unfold Before.smells
  rw [deadCode_append, deadCode_ite (d := ⟨.duplicateCode _, _, _, _⟩) rfl, List.append_nil]
  split <;> rfl

theorem dead_entering (b : Before) (s : Stmt) : (b.entering s).dead = (b.dead && !s.isLabel) := by
  cases s <;> simp [Before.entering, Stmt.isLabel]

theorem dead_leaving (b : Before) (s : Stmt) :
    (b.leaving c s).dead = (b.dead || s.isTerminal) := by
  cases s <;> simp [Before.leaving, Stmt.isTerminal]

mutual

theorem deadCode_ofStmt (depth : Nat) (loop : Option Loop) (n : Nat) :
    ∀ s, deadCode (Smell.ofStmt c depth s) = Site.findings (Site.inStmt loop n s)
  -- The recursion is that of the findings; each body is counted from the block that its fragment
  -- begins with.
  | .ifThen p (.mk q x body) elsifs otherwise => by
    rw [Site.inStmt_ifThen]
    have first := deadCode_ofList (depth + 1) loop (n + 1) {} body
    have others := deadCode_ofElsifs (depth + 1) loop (n + 1 + max 1 (blockCountAll body)) elsifs
    cases otherwise with
    | none => simp [Smell.ofStmt, first, others, Site.inList]
    | some ss =>
      have last := deadCode_ofList (depth + 1) loop
        (n + 1 + max 1 (blockCountAll body) + blockCountElsifs elsifs) {} ss
      simp [Smell.ofStmt, first, others, last]
  | .caseOf p x branches otherwise => by
    rw [Site.inStmt_caseOf]
    have known := deadCode_ofBranches (depth + 1) loop (n + 1) branches
    cases otherwise with
    | none =>
      simp [Smell.ofStmt, known, Site.inList, deadCode_ite (d := ⟨.missingCaseElse, _, _, _⟩) rfl]
    | some ss =>
      have last := deadCode_ofList (depth + 1) loop (n + 1 + blockCountBranches branches) {} ss
      simp [Smell.ofStmt, known, last]
  | .forLoop _ _ _ _ _ body | .whileLoop _ _ body => by
    simp [Smell.ofStmt, Site.inStmt, deadCode_ofList _ (some ⟨n, n + 1⟩) (n + 2) {} body]
  | .repeatLoop _ body _ => by
    simp [Smell.ofStmt, Site.inStmt, deadCode_ofList _ (some ⟨n + 1, n + 2⟩) (n + 3) {} body]
  | .region _ _ body => by
    simp [Smell.ofStmt, Site.inStmt, deadCode_ofList _ loop n {} body]
  | .assignment .. | .call .. | .invoke .. => by simp [Smell.ofStmt, Site.inStmt]
  | .exitLoop _ | .nextPass _ | .leave _ _ | .empty _ | .goto _ _ | .label _ _ => rfl

/-- What is reported about a list are its dead sites. -/
theorem deadCode_ofList (depth : Nat) (loop : Option Loop) (n : Nat) (b : Before) :
    ∀ ss, deadCode (Smell.ofList c depth b ss) = Site.findings (Site.inList loop n b.dead ss)
  | [] => rfl
  | s :: ss => by
    have inner := deadCode_ofStmt depth loop n s
    have rest := deadCode_ofList depth loop (n + blockCount s) ((b.entering s).leaving c s) ss
    -- the two flags are put up and taken back at the same statements
    rw [dead_leaving, dead_entering] at rest
    rw [Smell.ofList, Site.inList]
    simp only [deadCode_append, deadCode_smells, inner, rest, dead_entering]
    cases b.dead && !s.isLabel <;> simp [Site.findings, Site.finding]

theorem deadCode_ofElsifs (depth : Nat) (loop : Option Loop) (n : Nat) :
    ∀ bs, deadCode (Smell.ofElsifs c depth bs) = Site.findings (Site.inElsifs loop n bs)
  | [] => rfl
  | .mk _ _ body :: bs => by
    simp [Smell.ofElsifs, Site.inElsifs, deadCode_ofList depth loop (n + 1) {} body,
      deadCode_ofElsifs depth loop (n + 1 + max 1 (blockCountAll body)) bs]

theorem deadCode_ofBranches (depth : Nat) (loop : Option Loop) (n : Nat) :
    ∀ bs, deadCode (Smell.ofBranches c depth bs) = Site.findings (Site.inBranches loop n bs)
  | [] => rfl
  | .mk _ _ body :: bs => by
    simp [Smell.ofBranches, Site.inBranches, deadCode_ofList depth loop n {} body,
      deadCode_ofBranches depth loop (n + max 1 (blockCountAll body)) bs,
      deadCode_ite (d := ⟨.emptyCaseBranch, _, _, _⟩) rfl]

end

theorem deadCode_ofBody (place : Option Span) (ss : List Stmt) :
    deadCode (Smell.ofBody c place ss) = Site.findings (Site.inList none 2 false ss) := by
  rw [Smell.ofBody_eq, deadCode_append, deadCode_ofList 0 none 2 {} ss]
  exact congrArg (· ++ _) (filter_ofLength place ss)

/-! ### What is reported is not reached -/

namespace Site

mutual

theorem stmts_inStmt (loop : Option Loop) (n : Nat) :
    ∀ s, s :: (inStmt loop n s).map Site.stmt = s.flatten
  | .ifThen p (.mk q x body) elsifs otherwise => by
    rw [inStmt_ifThen, Stmt.flatten_ifThen, List.map_append, List.map_append,
      stmts_inList loop _ false body, stmts_inElsifs loop _ elsifs]
    cases otherwise with
    | none => rfl
    | some ss => rw [Option.getD_some, stmts_inList loop _ false ss]
  | .caseOf p x branches otherwise => by
    rw [inStmt_caseOf, Stmt.flatten_caseOf, List.map_append, stmts_inBranches loop _ branches]
    cases otherwise with
    | none => rfl
    | some ss => rw [Option.getD_some, stmts_inList loop _ false ss]
  | .forLoop _ _ _ _ _ body | .whileLoop _ _ body => by
    rw [inStmt, Stmt.flatten, stmts_inList (some ⟨n, n + 1⟩) (n + 2) false body]
  | .repeatLoop _ body _ => by
    rw [inStmt, Stmt.flatten, stmts_inList (some ⟨n + 1, n + 2⟩) (n + 3) false body]
  | .region _ _ body => by
    rw [inStmt, Stmt.flatten, stmts_inList loop n false body]
  | .assignment .. | .call .. | .invoke .. | .exitLoop _ | .nextPass _ | .leave _ _ | .empty _
  | .goto _ _ | .label _ _ => rfl

/-- The sites of a list are those of its statements, nested ones included, each once. -/
theorem stmts_inList (loop : Option Loop) (n : Nat) (dead : Bool) :
    ∀ ss, (inList loop n dead ss).map Site.stmt = Stmt.flattenAll ss
  | [] => rfl
  | s :: ss => by
    rw [inList, List.map_cons, List.map_append, stmts_inList loop _ _ ss, Stmt.flattenAll,
      ← stmts_inStmt loop n s, List.cons_append]

theorem stmts_inElsifs (loop : Option Loop) (n : Nat) :
    ∀ bs, (inElsifs loop n bs).map Site.stmt = IfBranch.flattenAll bs
  | [] => rfl
  | .mk _ _ body :: bs => by
    rw [inElsifs, List.map_append, stmts_inList loop _ false body, stmts_inElsifs loop _ bs,
      IfBranch.flattenAll]

theorem stmts_inBranches (loop : Option Loop) (n : Nat) :
    ∀ bs, (inBranches loop n bs).map Site.stmt = CaseBranch.flattenAll bs
  | [] => rfl
  | .mk _ _ body :: bs => by
    rw [inBranches, List.map_append, stmts_inList loop _ false body, stmts_inBranches loop _ bs,
      CaseBranch.flattenAll]

end

end Site

/-- What is sealed in the fragment of a list is not reached in its graph. -/
theorem not_mem_reachable_of_seals {ss : List Stmt} {D : Nat → Prop}
    (sealed : (Fragment.ofList none 2 ss).Seals 2 D) {m : Nat} (h : D m) :
    m ∉ (Graph.ofList ss).reachable := by
  have inside (m : Nat) (hm : D m) : 2 ≤ m := (sealed.inside m hm).1
  refine Graph.not_mem_reachable (P := D) ?_ ?_ h
  · cases ss with
    | nil | cons => exact fun entry => absurd (inside 0 entry) (by decide)
  · intro a b edge hb
    cases ss with
    | nil =>
      -- a single edge leads from the entry to the exit
      obtain ⟨-, rfl⟩ : 0 = a ∧ 1 = b := by simpa [Graph.ofList] using edge
      exact absurd (inside 1 hb) (by decide)
    | cons s ss =>
      rcases (joins_ofList s ss).mp edge with inner | ⟨-, rfl⟩ | ⟨-, rfl⟩ | ⟨-, rfl⟩
      · exact sealed.edges a b inner hb
      · exact absurd hb sealed.first
      all_goals exact absurd (inside 1 hb) (by decide)

/-- Whatever the configuration and wherever the body stands, what is reported as dead code are the
dead ones among the statements of the body, nested ones included.  The blocks of each statement,
with those of the statements inside of it, are numbered in one piece in the graph of the body, and
control comes to none of them if the statement is dead. -/
theorem unreachable_of_deadCode (c : SmellConfig) (place : Option Span) (ss : List Stmt) :
    deadCode (Smell.ofBody c place ss) = Site.findings (Site.inList none 2 false ss) ∧
      (Site.inList none 2 false ss).map Site.stmt = Stmt.flattenAll ss ∧
        ∀ x ∈ Site.inList none 2 false ss,
          (∃ front back, (Graph.ofList ss).blocks = front ++ x.fragment.blocks ++ back ∧
            front.length = x.first) ∧
          (x.dead = true → ∀ m, x.Holds m → m ∉ (Graph.ofList ss).reachable) := by
  refine ⟨deadCode_ofBody place ss, Site.stmts_inList none 2 false ss, fun x hx => ?_⟩
  have lodged := Fragment.lodges_ofList none 2 (Fragment.outside_none 2) ss x hx
  constructor
  · obtain ⟨front, back, parts, first⟩ := lodged.part.blocks
    cases ss with
    | nil => exact absurd hx List.not_mem_nil
    | cons s ss =>
      -- the entry and the exit come before the blocks of the fragment
      refine ⟨[{ kind := .entry }, { kind := .exit }] ++ front, back, ?_, ?_⟩
      · simp [Graph.ofList, parts]
      · rw [first, List.length_append]
        rfl
  · intro dead m hm
    obtain ⟨D, sealed, holds⟩ := lodged.sealed dead
    exact not_mem_reachable_of_seals sealed (holds m hm)

/-- A loop that is left before its second statement. -/
def leftLoop : List Stmt :=
  let x : Expr := .variable (.named Span.zero "x" .plain)
  [.whileLoop Span.zero x
    [.exitLoop Span.zero, .ifThen Span.zero (.mk Span.zero x [.empty Span.zero]) [] none]]

/-- The second statement and the one inside of it have the blocks 5 and 6, and all others are
reached. -/
theorem unreachable_of_deadCode_leftLoop :
    (∃ x ∈ Site.inList none 2 false leftLoop, x.dead = true ∧ x.Holds 5 ∧ x.Holds 6 ∧
        5 ∉ (Graph.ofList leftLoop).reachable ∧ 6 ∉ (Graph.ofList leftLoop).reachable) ∧
      (Graph.ofList leftLoop).reachable = [0, 1, 2, 3, 4] := by
  have second := (unreachable_of_deadCode {} none leftLoop).2.2
    (Site.inList none 2 false leftLoop)[2] (List.getElem_mem (by decide))
  have holds₅ : (Site.inList none 2 false leftLoop)[2].Holds 5 := ⟨by decide, by decide⟩
  have holds₆ : (Site.inList none 2 false leftLoop)[2].Holds 6 := ⟨by decide, by decide⟩
  exact ⟨⟨_, List.getElem_mem (by decide), rfl, holds₅, holds₆, second.2 rfl 5 holds₅,
    second.2 rfl 6 holds₆⟩, by decide⟩

end Flow

end Plc

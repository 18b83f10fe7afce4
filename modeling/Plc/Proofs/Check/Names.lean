/-
What a check says about names, and what it leaves in the table.

A check of a list of statements performs the acts of its expressions and of its statements, however
they are nested.  From this the results are read off, each over all tables, types and functions:

* `undefined_findings` — which names are reported as undefined;
* `marks_checkAll` — which symbols are marked, and that nothing else is changed;
* `refused_findings` — which assignments are refused, and that no other write is.
-/
import Mathlib.Data.List.Perm.Basic
import Plc.Proofs.Check.Forget
import Plc.Proofs.Check.Performed

namespace Plc

open Check

/-! ### The acts of a list -/

/-- The acts of a list of statements: those of the expressions and those of the statements
themselves. -/
def Stmt.actsAll (ss : List Stmt) : List Act :=
  (occurrencesAll ss).flatMap Occurrence.acts ++ (flattenAll ss).flatMap acts

theorem Check.performs_actsAll (ss : List Stmt) : Performs (checkAll ss) (Stmt.actsAll ss) := by
  refine (checkAll_performs ss).perm ?_
  unfold Stmt.actsAll Stmt.occurrencesAll
  rw [List.flatMap_assoc]
  exact (List.flatMap_append_perm _ _ _).symm.trans List.perm_append_comm

/-! ### What is found about names -/

/-- The name and the place of an expression that is a name without quotes, where it means nothing:
no symbol, nor the value of an enumeration unless it is what an assignment writes. -/
def Occurrence.undefined? (t : Scopes) (r : Registry) : Occurrence → Option (String × Span)
  | ⟨.variable (.named span name style), isTarget⟩ =>
    if style ≠ .quoted ∧ (t.lookup name).isNone ∧ (isTarget ∨ (r.enumOf? name).isNone) then
      some (name, span)
    else none
  | _ => none

namespace Stmt

/-- The control of a loop, where it means nothing, and the place of the loop. -/
def undefined? (t : Scopes) : Stmt → Option (String × Span)
  | .forLoop span control _ _ _ _ =>
    if (t.lookup control).isNone then some (control, span) else none
  | _ => none

/-- What is said against an assignment, because of what its target is rooted in. -/
def refusal? (t : Scopes) : Stmt → Option Diagnostic
  | .assignment _ target _ _ =>
    ((target.root?.bind t.lookup).bind Check.refusal?).map (⟨·, target.span, .error, none⟩)
  | _ => none

end Stmt

namespace Check

/-- The report of a name that means nothing. -/
def undefinedAt (place : String × Span) : Diagnostic :=
  ⟨.undefinedIdentifier place.1, place.2, .error, none⟩

/-- A report that is made under a condition. -/
theorem ite_undefinedAt {p q : Prop} [Decidable p] [Decidable q] (same : p ↔ q) (name : String)
    (span : Span) : (if p then [⟨.undefinedIdentifier name, span, .error, none⟩] else []) =
      (if q then some (name, span) else none).toList.map undefinedAt := by
  by_cases h : p
  · rw [if_pos h, if_pos (same.mp h)]
    rfl
  · rw [if_neg h, if_neg (h ∘ same.mpr)]
    rfl

variable (t : Scopes) (r : Registry)

/-- Nothing is found where a name is only written. -/
theorem found_writes (vs : List Variable) : (writes vs).flatMap (Act.found t r) = [] := by
  refine List.flatMap_eq_nil_iff.mpr fun a mem => ?_
  obtain ⟨v, -, root⟩ := List.mem_filterMap.mp mem
  obtain ⟨name, -, rfl⟩ := Option.map_eq_some_iff.mp root
  rfl

theorem found_occurrence (o : Occurrence) :
    o.acts.flatMap (Act.found t r) = (o.undefined? t r).toList.map undefinedAt := by
  obtain ⟨x, isTarget⟩ := o
  cases x with
  | «variable» v =>
    cases v with
    | named span name style =>
      cases isTarget with
      | true =>
        rw [Occurrence.acts, List.flatMap_singleton, Act.found]
        exact ite_undefinedAt (by simp) name span
      | false =>
        rw [Occurrence.acts_read, Expr.acts, List.flatMap_singleton, Act.found]
        exact ite_undefinedAt (by simp) name span
    | _ => rfl
  | call span name args => exact found_writes t r (Arg.outputs args)
  | structInit span fields => exact found_writes t r (Arg.outputs fields)
  | _ => rfl

theorem found_stmt (s : Stmt) : s.acts.flatMap (Act.found t r) =
    (s.undefined? t).toList.map undefinedAt ++ (s.refusal? t).toList := by
  cases s with
  | assignment span target op value =>
    rw [Stmt.acts, List.flatMap_append, found_writes, List.flatMap_singleton]
    exact Option.toList_map.symm
  | forLoop span control start stop step body =>
    rw [Stmt.acts, List.flatMap_singleton, Act.found, ite_undefinedAt .rfl]
    exact (List.append_nil _).symm
  | invoke span callee args => exact found_writes t r (Arg.outputs args)
  | _ => rfl

/-- All that is found about names: one report for each name that means nothing where it stands, one
for each loop whose control does, and one for each assignment that is refused. -/
theorem filter_findings (c : Context) (ss : List Stmt) :
    ((findings c r t ss).filter isAboutNames).Perm
      (((Stmt.occurrencesAll ss).filterMap (Occurrence.undefined? t r) ++
          (Stmt.flattenAll ss).filterMap (Stmt.undefined? t)).map undefinedAt ++
        (Stmt.flattenAll ss).filterMap (Stmt.refusal? t)) := by
  have found := (performs_actsAll ss c { scopes := t, types := r }).found
  rw [List.filter_nil, List.nil_append, Stmt.actsAll, List.flatMap_append, List.flatMap_assoc,
    List.flatMap_assoc] at found
  simp only [found_occurrence, found_stmt] at found
  refine found.trans ?_
  -- each statement has its report and its refusal together; they are sorted apart
  rw [List.map_append, List.append_assoc]
  simp only [List.filterMap_eq_flatMap_toList, List.map_flatMap]
  exact (List.flatMap_append_perm _ _ _).symm.append_left _

end Check

/-! ### Undefined names -/

/-- The name that is reported as undefined, and the place. -/
def Diagnostic.undefined? (d : Diagnostic) : Option (String × Span) :=
  match d.finding with
  | .undefinedIdentifier name => some (name, d.span)
  | _ => none

/-- The finding is that an assignment must not be made. -/
def Diagnostic.isRefusal (d : Diagnostic) : Bool :=
  match d.finding with
  | .assignmentToConstant _ | .assignmentToInput _ => true
  | _ => false

theorem Stmt.isRefusal_of_refusal? {t : Scopes} {s : Stmt} {d : Diagnostic}
    (h : s.refusal? t = some d) : d.isRefusal = true := by
  cases s with
  | assignment span target op value =>
    obtain ⟨finding, said, rfl⟩ := Option.map_eq_some_iff.mp h
    obtain ⟨x, -, said⟩ := Option.bind_eq_some_iff.mp said
    unfold Check.refusal? at said
    split at said
    · cases said
      rfl
    · split at said
      · cases said
        rfl
      · cases said
  | _ => cases h

namespace Check

end Check

/-! ### Marks -/

namespace Stmt

/-- The list reads a name: in an expression that is not itself what an assignment writes, as the
control of a loop, or to call a function that it means and that is not registered. -/
inductive Reads (c : Context) (t : Scopes) (ss : List Stmt) (name : String) : Prop
  | expr {span style} (mem : ⟨.variable (.named span name style), false⟩ ∈ occurrencesAll ss)
  | control {span start stop step body}
      (mem : .forLoop span name start stop step body ∈ flattenAll ss)
  | callee {span args} (mem : .call span name args ∈ expressions ss)
      (unregistered : c.functions.lookup (Text.upper name) = none)
      (function : (t.lookup name).any (·.kind = .function))

/-- The arguments are given somewhere in the list. -/
inductive Gives (ss : List Stmt) (args : List Arg) : Prop
  | call {span name} (mem : .call span name args ∈ expressions ss)
  | structInit {span} (mem : .structInit span args ∈ expressions ss)
  | invoke {span callee} (mem : .invoke span callee args ∈ flattenAll ss)

/-- The list writes a name: as the root of what an assignment writes, as the control of a loop, or
as the root of what an output is given to. -/
inductive Writes (ss : List Stmt) (name : String) : Prop
  | target {span target op value} (mem : .assignment span target op value ∈ flattenAll ss)
      (root : target.root? = some name)
  | control {span start stop step body}
      (mem : .forLoop span name start stop step body ∈ flattenAll ss)
  | output {args span formal target negated} (gives : Gives ss args)
      (mem : .output span formal target negated ∈ args) (root : target.root? = some name)

end Stmt

namespace Check

variable {c : Context} {t : Scopes} {ss : List Stmt} {name : String}

/-- A table with a constant in it. -/
def constantScopes : Scopes where
  list := [{ name := "global" }, {
    name := "P"
    parent := some 0
    symbols := [
      { name := "K", kind := .constant, type := some (.simple .int), isMutable := false }] }]
  current := 1

/-- `FOR K := 1 TO 2 DO END_FOR;` -/
def constantLoop : Stmt :=
  .forLoop Span.zero "K" (.literal Span.zero ⟨.integer 1, "1", none⟩)
    (.literal Span.zero ⟨.integer 2, "2", none⟩) none []

end Check

/-! ### Refused assignments -/

/-- The symbol must not be written. -/
def Symbol.IsProtected (x : Symbol) : Prop :=
  x.kind = .constant ∨ x.isMutable = false ∨ x.kind = .parameter

namespace Check

theorem refusal?_eq_none {x : Symbol} : refusal? x = none ↔ ¬x.IsProtected := by
  unfold refusal? Symbol.IsProtected
  by_cases constant : (x.kind = .constant || !x.isMutable) = true
  · -- a symbol that does not change is refused as a constant, also if it is an input
    rw [if_pos constant]
    have kept : x.kind = .constant ∨ x.isMutable = false := by simpa using constant
    exact iff_of_false (Option.some_ne_none _) (not_not_intro (or_assoc.mp (.inl kept)))
  · rw [if_neg constant]
    have free : ¬(x.kind = .constant ∨ x.isMutable = false) := by simpa using constant
    by_cases input : x.kind = .parameter
    · rw [if_pos input]
      exact iff_of_false (Option.some_ne_none _) (not_not_intro (.inr (.inr input)))
    · rw [if_neg input]
      exact iff_of_true rfl fun h => (or_assoc.mpr h).elim free input

theorem refusal?_assignment {t : Scopes} {span : Span} {target : Variable} {op : AssignOp}
    {value : Expr} : Stmt.refusal? t (.assignment span target op value) = none ↔
      ∀ name x, target.root? = some name → t.lookup name = some x → ¬x.IsProtected := by
  unfold Stmt.refusal?
  rw [Option.map_eq_none_iff, Option.bind_eq_none_iff]
  simp only [Option.bind_eq_some_iff, refusal?_eq_none]
  exact ⟨fun h name x root found => h x ⟨name, root, found⟩, fun h x ⟨name, root, found⟩ =>
    h name x root found⟩

/-- The refusals that are found are those of the assignments, one for each that is refused. -/
theorem filter_isRefusal_findings (c : Context) (types : Registry) (scopes : Scopes)
    (ss : List Stmt) : ((findings c types scopes ss).filter Diagnostic.isRefusal).Perm
      ((Stmt.flattenAll ss).filterMap (Stmt.refusal? scopes)) := by
  have about (d : Diagnostic) : (d.isRefusal && isAboutNames d) = d.isRefusal := by
    obtain ⟨finding, span, severity, related⟩ := d
    cases finding <;> rfl
  have undefined (places : List (String × Span)) :
      (places.map undefinedAt).filter Diagnostic.isRefusal = [] := by
    refine List.filter_eq_nil_iff.mpr fun d mem => ?_
    obtain ⟨place, -, rfl⟩ := List.mem_map.mp mem
    exact Bool.false_ne_true
  have refusals : ∀ d ∈ (Stmt.flattenAll ss).filterMap (Stmt.refusal? scopes),
      d.isRefusal = true := by
    intro d mem
    obtain ⟨s, -, refused⟩ := List.mem_filterMap.mp mem
    exact Stmt.isRefusal_of_refusal? refused
  have found := (filter_findings scopes types c ss).filter Diagnostic.isRefusal
  rw [List.filter_filter, funext about, List.filter_append, undefined, List.nil_append,
    List.filter_eq_self.mpr refusals] at found
  exact found

/-- Assignments are guarded: nothing is refused if and only if no assignment, however deep in the
list and through whichever accesses, writes a constant, a symbol that does not change, or an
input. -/
theorem refused_findings (c : Context) (types : Registry) (scopes : Scopes) (ss : List Stmt) :
    (∀ d ∈ findings c types scopes ss, d.isRefusal = false) ↔
      ∀ span target op value name x, .assignment span target op value ∈ Stmt.flattenAll ss →
        target.root? = some name → scopes.lookup name = some x → ¬x.IsProtected := by
  -- nothing is found if and only if nothing is refused, in whichever order
  have perm := filter_isRefusal_findings c types scopes ss
  have none_refused : (∀ d ∈ findings c types scopes ss, d.isRefusal = false) ↔
      ∀ s ∈ Stmt.flattenAll ss, s.refusal? scopes = none := by
    simp only [← Bool.not_eq_true, ← List.filter_eq_nil_iff, ← List.filterMap_eq_nil_iff]
    constructor
    · intro h
      rw [h] at perm
      exact perm.nil_eq.symm
    · intro h
      rw [h] at perm
      exact perm.eq_nil
  rw [none_refused]
  constructor
  · intro h span target op value name x mem
    exact refusal?_assignment.mp (h _ mem) name x
  · intro h s mem
    cases s with
    | assignment span target op value =>
      exact refusal?_assignment.mpr fun name x => h span target op value name x mem
    | _ => rfl

/-- Writes of other kinds are not guarded: a constant that counts the passes of a loop is written,
and nothing is refused. -/
theorem writes_not_refused :
    ¬∀ (c : Context) (types : Registry) (scopes : Scopes) (ss : List Stmt),
      (∀ d ∈ findings c types scopes ss, d.isRefusal = false) →
        ∀ name x, Stmt.Writes ss name → scopes.lookup name = some x → ¬x.IsProtected := by
  intro claim
  -- the loop is checked in full, and nothing is found
  have silent : findings {} {} constantScopes [constantLoop] = [] := rfl
  have written : Stmt.Writes [constantLoop] "K" := .control (List.mem_singleton_self _)
  refine claim {} {} constantScopes [constantLoop] ?_ "K" _ written rfl (.inl rfl)
  rw [silent]
  exact List.forall_mem_nil _

end Check

end Plc

/-
What a check does with names.

Whatever else a check finds, each name in a statement list takes part in it in one of a few ways: it
is read, assigned to, called, or counts the passes of a loop.  Such an `Act` marks symbols and may
be found fault with, and both can be told from the table with which the check began, since marks do
not change what names mean.

* `Stmt.occurrences` — the expressions of a statement, each with whether it is what is assigned to;
* `Stmt.allActs` — the acts of a statement, its bodies apart;
* `State.Follows` — one state comes from another by some acts, whatever else was found;
* `Performs` — a check that performs some acts wherever it begins, with a rule for each way in which
  checks are put together.
-/
import Plc.Proofs.Check.Blur
import Plc.Proofs.Scope.Marks
import Plc.Tree.Walk

namespace Plc

/-! ### Where names stand -/

/-- The targets of the outputs among some arguments. -/
def Arg.outputs (args : List Arg) : List Variable :=
  args.filterMap fun
    | .output _ _ v _ => some v
    | _ => none

/-- An expression in a statement, and whether it is itself what an assignment writes. -/
structure Occurrence where
  node : Expr
  isTarget : Bool

namespace Stmt

/-- The expressions of a statement itself, each with its parts, in the order of the text. -/
def occurrences : Stmt → List Occurrence
  | .assignment _ target _ value =>
    ⟨.variable target, true⟩ ::
      (target.subexpressions.tail ++ value.subexpressions).map (⟨·, false⟩)
  | s => (s.roots.flatMap Expr.subexpressions).map (⟨·, false⟩)

/-- The expressions in a list of statements, those of nested bodies included. -/
def occurrencesAll (ss : List Stmt) : List Occurrence :=
  (flattenAll ss).flatMap occurrences

end Stmt

theorem Variable.subexpressions_eq_cons (v : Variable) :
    v.subexpressions = .variable v :: v.subexpressions.tail := by
  cases v <;> rfl

namespace Check

/-! ### Acts -/

/-- What is done with a name. -/
inductive Act where
  /-- Its value is read. -/
  | read (span : Span) (name : String) (style : NameStyle)
  /-- It is itself what is assigned to. -/
  | target (span : Span) (name : String) (style : NameStyle)
  /-- It is called. -/
  | call (name : String)
  /-- It is written. -/
  | write (name : String)
  /-- It is the control of a loop. -/
  | control (span : Span) (name : String)
  /-- An assignment stores to the variable. -/
  | store (v : Variable)

/-- What is said against an assignment to a symbol. -/
def refusal? (x : Symbol) : Option Finding :=
  if x.kind = .constant || !x.isMutable then some (.assignmentToConstant x.name)
  else if x.kind = .parameter then some (.assignmentToInput x.name)
  else none

namespace Act

/-- The names that the act marks as used.  The name of a call is one only where it means a function
that is not registered. -/
def used (c : Context) (t : Scopes) : Act → List String
  | .read _ name _ | .control _ name => [name]
  | .call name =>
    if (c.functions.lookup (Text.upper name)).isNone &&
        (t.lookup name).any (·.kind = .function) then [name]
    else []
  | .target .. | .write _ | .store _ => []

/-- The names that the act marks as assigned. -/
def assigned : Act → List String
  | .write name | .control _ name => [name]
  | .read .. | .target .. | .call _ | .store _ => []

/-- What is found about the name.  A name in quotes may mean something outside of the text, and a
name that is read may be that of an enumeration's value. -/
def found (t : Scopes) (r : Registry) : Act → List Diagnostic
  | .read span name style =>
    if style ≠ .quoted ∧ (t.lookup name).isNone ∧ (r.enumOf? name).isNone then
      [⟨.undefinedIdentifier name, span, .error, none⟩]
    else []
  | .target span name style =>
    if style ≠ .quoted ∧ (t.lookup name).isNone then
      [⟨.undefinedIdentifier name, span, .error, none⟩]
    else []
  | .control span name =>
    if (t.lookup name).isNone then [⟨.undefinedIdentifier name, span, .error, none⟩] else []
  | .store v =>
    ((v.root?.bind t.lookup).bind refusal?).toList.map (⟨·, v.span, .error, none⟩)
  | .call _ | .write _ => []

variable {t : Scopes} {u w : List String}

/-- Marks make no difference to what an act marks. -/
theorem used_marked (c : Context) (a : Act) : a.used c (t.marked u w) = a.used c t := by
  cases a with
  | call name =>
    -- what kind of symbol is called does not depend on its flags
    exact Scopes.lookup_marked (fun x => if (c.functions.lookup (Text.upper name)).isNone &&
      x.any (·.kind = .function) then [name] else []) (fun _ => rfl) name
  | _ => rfl

/-- Marks make no difference to what is found about a name, nor do types that have been found. -/
theorem found_marked {r r' : Registry} (h : r'.specs = r.specs) (a : Act) :
    a.found (t.marked u w) r' = a.found t r := by
  have none (name : String) : ((t.marked u w).lookup name).isNone = (t.lookup name).isNone :=
    Scopes.lookup_marked Option.isNone (fun _ => rfl) name
  cases a with
  | read span name style => simp only [found, none, Registry.enumOf?_congr h]
  | target span name style => simp only [found, none]
  | control span name => simp only [found, none]
  | store v =>
    cases root : v.root? with
    | none => simp only [found, root, Option.bind_none]
    | some name =>
      have same : ((t.marked u w).lookup name).bind refusal? = (t.lookup name).bind refusal? :=
        Scopes.lookup_marked (·.bind refusal?) (fun _ => rfl) name
      simp only [found, root, Option.bind_some, same]
  | call name | write name => rfl

end Act

/-- To write to some variables is to write to the names at their roots. -/
def writes (vs : List Variable) : List Act :=
  vs.filterMap fun v => v.root?.map .write

theorem writes_append (vs ws : List Variable) : writes (vs ++ ws) = writes vs ++ writes ws :=
  List.filterMap_append

end Check

open Check

/-- The acts of an expression that is read, its parts apart. -/
def Expr.acts : Expr → List Act
  | .variable (.named span name style) => [.read span name style]
  | .call _ name args => .call name :: writes (Arg.outputs args)
  | .structInit _ fields => writes (Arg.outputs fields)
  | _ => []

/-- The acts of an expression that is read, with its parts. -/
def Expr.allActs (x : Expr) : List Act :=
  x.subexpressions.flatMap Expr.acts

/-- The acts of an expression where it stands, its parts apart. -/
def Occurrence.acts : Occurrence → List Act
  | ⟨.variable (.named span name style), true⟩ => [.target span name style]
  | ⟨x, _⟩ => x.acts

namespace Stmt

/-- The acts of a statement, its expressions and its bodies apart. -/
def acts : Stmt → List Act
  | .assignment _ target _ _ => writes [target] ++ [.store target]
  | .forLoop span control _ _ _ _ => [.control span control]
  | .invoke _ _ args => writes (Arg.outputs args)
  | _ => []

/-- The acts of a statement, its bodies apart. -/
def allActs (s : Stmt) : List Act :=
  s.acts ++ s.occurrences.flatMap Occurrence.acts

end Stmt

theorem Occurrence.acts_read (x : Expr) : Occurrence.acts ⟨x, false⟩ = x.acts := by
  cases x with
  | «variable» v => cases v <;> rfl
  | _ => rfl

theorem Occurrence.flatMap_acts_read (xs : List Expr) :
    (xs.map (⟨·, false⟩)).flatMap Occurrence.acts = xs.flatMap Expr.acts := by
  rw [List.flatMap_map]
  simp only [acts_read]

/-- All statements but assignments read their expressions. -/
theorem Stmt.allActs_eq {s : Stmt}
    (h : s.occurrences = (s.roots.flatMap Expr.subexpressions).map (⟨·, false⟩)) :
    s.allActs = s.acts ++ s.roots.flatMap Expr.allActs := by
  rw [allActs, h, Occurrence.flatMap_acts_read, List.flatMap_assoc]
  rfl

namespace Check

/-! ### Checks that perform acts -/

/-- The finding is about what a name means or whether it may be written. -/
def isAboutNames (d : Diagnostic) : Bool :=
  match d.finding with
  | .undefinedIdentifier _ | .assignmentToConstant _ | .assignmentToInput _ => true
  | _ => false

/-- The second state comes from the first by the acts, whatever else was found and whichever types
were. -/
structure State.Follows (c : Context) (acts : List Act) (s s' : State) : Prop where
  scopes : s'.scopes =
    s.scopes.marked (acts.flatMap (Act.used c s.scopes)) (acts.flatMap Act.assigned)
  specs : s'.types.specs = s.types.specs
  found : (s'.found.filter isAboutNames).Perm
    (s.found.filter isAboutNames ++ acts.flatMap (Act.found s.scopes s.types))

namespace State.Follows

variable {c : Context} {acts acts' : List Act} {s s' s'' : State}

theorem refl (c : Context) (s : State) : s.Follows c [] s :=
  ⟨(Scopes.marked_nil _).symm, rfl, by simp⟩

/-- The acts of the second step are those that the first state tells, for the first step did not
change what names mean. -/
theorem trans (first : s.Follows c acts s') (second : s'.Follows c acts' s'') :
    s.Follows c (acts ++ acts') s'' := by
  obtain ⟨scopes, specs, found⟩ := first
  obtain ⟨scopes', specs', found'⟩ := second
  -- both what is marked and what is found can be told from the first table
  have used : acts'.flatMap (Act.used c s'.scopes) = acts'.flatMap (Act.used c s.scopes) := by
    simp only [scopes, funext (Act.used_marked c)]
  have about : acts'.flatMap (Act.found s'.scopes s'.types) =
      acts'.flatMap (Act.found s.scopes s.types) := by
    simp only [scopes, funext (Act.found_marked specs)]
  refine ⟨?_, specs'.trans specs, ?_⟩
  · rw [scopes', used, scopes, Scopes.marked_marked, List.flatMap_append, List.flatMap_append]
  · rw [List.flatMap_append, ← List.append_assoc]
    rw [about] at found'
    exact found'.trans (found.append_right _)

/-- The order of the acts does not matter. -/
theorem perm (h : s.Follows c acts s') (same : acts.Perm acts') : s.Follows c acts' s' := by
  obtain ⟨scopes, specs, found⟩ := h
  refine ⟨scopes.trans (Scopes.marked_congr (fun name => ?_) fun name => ?_), specs,
    found.trans ((same.flatMap_right _).append_left _)⟩
  · exact (same.flatMap_right _).mem_iff
  · exact (same.flatMap_right _).mem_iff

end State.Follows

/-- Wherever the check begins, it performs the acts. -/
def Performs {α : Type} (m : Check α) (acts : List Act) : Prop :=
  ∀ (c : Context) (s : State), s.Follows c acts (run m c s).2

namespace Performs

variable {α β : Type} {m : Check α} {acts acts' : List Act}

theorem perm (h : Performs m acts) (same : acts.Perm acts') : Performs m acts' :=
  fun c s => (h c s).perm same

theorem pure (a : α) : Performs (pure a) [] :=
  State.Follows.refl

theorem bind {f : α → Check β} (hm : Performs m acts) (hf : ∀ a, Performs (f a) acts') :
    Performs (m >>= f) (acts ++ acts') :=
  fun c s => (hm c s).trans (hf _ c _)

/-- A check that performs nothing, and what comes after it. -/
theorem skip {f : α → Check β} (hm : Performs m []) (hf : ∀ a, Performs (f a) acts) :
    Performs (m >>= f) acts :=
  hm.bind hf

/-- A check, and what comes after it and performs nothing. -/
theorem then_skip {f : α → Check β} (hm : Performs m acts) (hf : ∀ a, Performs (f a) []) :
    Performs (m >>= f) acts := by
  rw [← List.append_nil acts]
  exact hm.bind hf

theorem report (severity : Severity) (span : Span) {f : Finding}
    (h : isAboutNames ⟨f, span, severity, none⟩ = false) :
    Performs (report severity span f) [] := by
  intro c s
  refine ⟨(Scopes.marked_nil _).symm, rfl, ?_⟩
  show (List.filter _ (s.found ++ [_])).Perm _
  simp [List.filter_append, h]

theorem lookup (name : String) : Performs (lookup name) [] :=
  State.Follows.refl

theorem context : Performs (read : Check Context) [] :=
  State.Follows.refl

theorem resolve (name : String) : Performs (resolve name) [] :=
  fun _ s => ⟨(Scopes.marked_nil _).symm, (Registry.resolve_settles name s.types).specs, by
    rw [List.flatMap_nil, List.append_nil]
    exact .refl _⟩

theorem markAssigned (name : String) : Performs (markAssigned name) [.write name] :=
  fun _ s => ⟨Scopes.markAssigned_eq _ _, rfl, by
    rw [List.flatMap_singleton, Act.found, List.append_nil]
    exact .refl _⟩

theorem markRootAssigned (v : Variable) : Performs (markRootAssigned v) (writes [v]) := by
  unfold Check.markRootAssigned
  cases root : v.root? with
  | none =>
    simp only [writes, List.filterMap_cons, root]
    exact pure _
  | some name =>
    simp only [writes, List.filterMap_cons, root]
    exact markAssigned name

/-- A loop over a list. -/
theorem forM {f : α → Check PUnit} {acts : α → List Act} (h : ∀ x, Performs (f x) (acts x))
    (xs : List α) : Performs (xs.forM f) (xs.flatMap acts) := by
  induction xs with
  | nil => exact pure _
  | cons x xs ih => exact (h x).bind fun _ => ih

/-- A loop that performs nothing in its passes, whether or not it is left early. -/
theorem forIn {f : α → PUnit → Check (ForInStep PUnit)} (h : ∀ x u, Performs (f x u) [])
    (xs : List α) (u : PUnit) : Performs (forIn xs u f) [] := by
  induction xs generalizing u with
  | nil => exact pure _
  | cons x xs ih =>
    rw [List.forIn_cons]
    refine skip (h x u) fun step => ?_
    cases step with
    | done u => exact pure _  -- the loop is left
    | yield u => exact ih u

end Performs

end Check

end Plc

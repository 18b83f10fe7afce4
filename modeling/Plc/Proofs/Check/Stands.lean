/-
Checks that report where they look.

A check of a part of a body reports at places of nodes of that part, and it declares no name.  So
when all places of the part have a property, then those of the findings have it, too, and the places
of the symbols stay as they are.

* `State.Stands` — findings and symbols at places with a property;
* `Keeps` — a check that keeps this, with a rule for each way in which checks are put together;
* `typeOf_keeps`, `checkAll_keeps` — the checks of expressions and of statements.
-/
import Plc.Proofs.Check.Blur
import Plc.Proofs.Check.Smell
import Plc.Proofs.Scope.Marks

namespace Plc

/-- The symbols within scopes, those of the outermost one aside, are declared at places with the
property. -/
def Scopes.Declares (P : Span → Prop) (t : Scopes) : Prop :=
  ∀ i, 0 < i → ∀ x ∈ (t.scopeAt i).symbols, P x.span

theorem Scopes.Declares.mapSymbols {P : Span → Prop} {t : Scopes} {f : Nat → Symbol → Symbol}
    (h : t.Declares P) (same : ∀ i x, (f i x).span = x.span) : (t.mapSymbols f).Declares P := by
  intro i above x hx
  rw [scopeAt_mapSymbols] at hx
  obtain ⟨y, hy, rfl⟩ := List.mem_map.1 hx
  exact (same i y).symm ▸ h i above y hy

namespace Check

/-! ### Checks that keep something -/

/-- Wherever the check begins, what holds of the state before it holds after it. -/
def Preserves {α : Type} (I : State → Prop) (m : Check α) : Prop :=
  ∀ (c : Context) (s : State), I s → I (run m c s).2

namespace Preserves

variable {α β : Type} {I : State → Prop} {m : Check α}

theorem pure (a : α) : Preserves I (pure a) :=
  fun _ _ h => h

/-- What comes after a check may depend on what the check gives. -/
theorem bind_run {f : α → Check β} (hm : Preserves I m)
    (hf : ∀ c s, Preserves I (f (run m c s).1)) : Preserves I (m >>= f) :=
  fun c s h => hf c s c _ (hm c s h)

theorem bind {f : α → Check β} (hm : Preserves I m) (hf : ∀ a, Preserves I (f a)) :
    Preserves I (m >>= f) :=
  hm.bind_run fun _ _ => hf _

/-- A loop over a list. -/
theorem forM {f : α → Check PUnit} {xs : List α} (h : ∀ x ∈ xs, Preserves I (f x)) :
    Preserves I (xs.forM f) := by
  induction xs with
  | nil => exact pure _
  | cons x xs ih =>
    exact (h x List.mem_cons_self).bind fun _ => ih fun y hy => h y (List.mem_cons_of_mem _ hy)

/-- A loop over a list that may be left early. -/
theorem forIn {f : α → PUnit → Check (ForInStep PUnit)} {xs : List α}
    (h : ∀ x ∈ xs, ∀ u, Preserves I (f x u)) (u : PUnit) : Preserves I (forIn xs u f) := by
  induction xs generalizing u with
  | nil => exact pure _
  | cons x xs ih =>
    rw [List.forIn_cons]
    refine (h x List.mem_cons_self u).bind fun step => ?_
    cases step with
    | done u => exact pure _
    | yield u => exact ih (fun y hy => h y (List.mem_cons_of_mem _ hy)) u

/-- A loop that gives something for each element of a list. -/
theorem mapM {f : α → Check β} (h : ∀ x, Preserves I (f x)) (xs : List α) :
    Preserves I (xs.mapM f) := by
  induction xs with
  | nil => exact pure _
  | cons x xs ih =>
    rw [List.mapM_cons]
    exact (h x).bind fun _ => ih.bind fun _ => pure _

/-- A loop that gives something for some elements of a list. -/
theorem filterMapM {f : α → Check (Option β)} (h : ∀ x, Preserves I (f x)) (xs : List α) :
    Preserves I (xs.filterMapM f) := by
  induction xs with
  | nil => exact pure _
  | cons x xs ih =>
    rw [List.filterMapM_cons]
    refine (h x).bind fun y => ?_
    cases y with
    | none => exact ih
    | some y => exact ih.bind fun _ => pure _

end Preserves

/-! ### Checks that keep places -/

/-- Findings and symbols stand at places with the property. -/
structure State.Stands (P : Span → Prop) (s : State) : Prop where
  found : Stand P s.found
  symbols : s.scopes.Declares P

/-- Wherever the check begins, findings and symbols stand at places with the property after it if
they did before. -/
abbrev Keeps {α : Type} (P : Span → Prop) (m : Check α) : Prop :=
  Preserves (State.Stands P) m

namespace Keeps

variable {α β : Type} {P : Span → Prop} {m : Check α}

/-- A check that neither reports nor touches the symbols. -/
theorem quiet (found : ∀ c s, (run m c s).2.found = s.found)
    (scopes : ∀ c s, (run m c s).2.scopes = s.scopes) : Keeps P m :=
  fun c s h => ⟨found c s ▸ h.found, scopes c s ▸ h.symbols⟩

theorem report (severity : Severity) {span : Span} (f : Finding) (here : P span) :
    Keeps P (report severity span f) := by
  refine fun c s h => ⟨h.found.append fun d hd => ?_, h.symbols⟩
  obtain rfl := List.mem_singleton.1 hd
  exact here

theorem lookup (name : String) : Keeps P (lookup name) :=
  quiet (fun _ _ => rfl) fun _ _ => rfl

theorem context : Keeps P (read : Check Context) :=
  quiet (fun _ _ => rfl) fun _ _ => rfl

theorem state : Keeps P (get : Check State) :=
  quiet (fun _ _ => rfl) fun _ _ => rfl

theorem resolve (name : String) : Keeps P (resolve name) :=
  quiet (fun _ _ => rfl) fun _ _ => rfl

/-- Marks leave symbols where they are. -/
theorem markUsed (name : String) : Keeps P (markUsed name) := by
  refine fun c s h => ⟨h.found, ?_⟩
  show (s.scopes.markUsed name).Declares P
  rw [Scopes.markUsed_eq]
  exact h.symbols.mapSymbols fun _ _ => rfl

theorem markAssigned (name : String) : Keeps P (markAssigned name) := by
  refine fun c s h => ⟨h.found, ?_⟩
  show (s.scopes.markAssigned name).Declares P
  rw [Scopes.markAssigned_eq]
  exact h.symbols.mapSymbols fun _ _ => rfl

theorem markRootAssigned (v : Variable) : Keeps P (markRootAssigned v) := by
  unfold Check.markRootAssigned
  split
  · exact markAssigned _
  · exact .pure _

end Keeps

variable {P : Span → Prop}

/-! ### Rules without parts -/

theorem undefined_keeps {span : Span} (name : String) (style : NameStyle) (here : P span) :
    Keeps P (undefined span name style) := by
  unfold undefined
  split
  · exact .pure _
  · exact (Keeps.report _ _ here).bind fun _ => .pure _

theorem combine_keeps (op : BinaryOp) (l r : Ty) {span : Span} (here : P span) :
    Keeps P (combine op l r span) := by
  unfold combine
  split
  · exact .pure _
  · split
    · exact .pure _
    · split
      · exact .pure _
      · exact (Keeps.report _ _ here).bind fun _ => .pure _

theorem typeOfLiteral_keeps (l : Literal) : Keeps P (typeOfLiteral l) := by
  unfold typeOfLiteral
  split
  · exact (Keeps.resolve _).bind fun _ => .pure _
  all_goals exact .pure _

/-- A call is reported at its place, and its arguments at theirs. -/
theorem checkSignature_keeps (g : Signature) {span : Span} {args : List (Arg × Ty)} (here : P span)
    (all : ∀ a ∈ args, P a.1.span) : Keeps P (checkSignature g span args) := by
  unfold checkSignature
  split
  · exact Keeps.report _ _ here
  · refine (Preserves.forIn (fun x hx u => ?_) _).bind fun _ => .pure _
    obtain ⟨⟨arg, found⟩, position⟩ := x
    have there : P arg.span := all (arg, found) (List.fst_mem_of_mem_zipIdx hx)
    dsimp only
    split
    · split
      · exact .pure _
      · exact (Keeps.report _ _ there).bind fun _ => .pure _
    · exact .pure _

theorem typeOfCall_keeps (name : String) {span : Span} {args : List (Arg × Ty)} (here : P span)
    (all : ∀ a ∈ args, P a.1.span) : Keeps P (typeOfCall span name args) := by
  unfold typeOfCall
  refine Keeps.context.bind fun c => ?_
  split
  · exact (checkSignature_keeps _ here all).bind fun _ => .pure _
  · refine (Keeps.lookup name).bind fun x => ?_
    split
    · exact (Keeps.markUsed name).bind fun _ => .pure _
    · exact .pure _

theorem expectInteger_keeps (t : Ty) {span : Span} (here : P span) :
    Keeps P (expectInteger span t) := by
  unfold expectInteger
  split
  · exact .pure _
  · exact Keeps.report _ _ here

/-! ### Expressions -/

/-- The arguments that are typed are among those that are given. -/
theorem mem_of_mem_typeOfArgs {a : Arg × Ty} : ∀ (args : List Arg) (c : Context) (s : State),
    a ∈ (run (typeOfArgs args) c s).1 → a.1 ∈ args
  | [], _, _, h => absurd h List.not_mem_nil
  | .positional span x :: args, c, s, h => by
    unfold typeOfArgs at h
    rcases List.mem_cons.1 h with rfl | h
    · exact List.mem_cons_self
    · exact List.mem_cons_of_mem _ (mem_of_mem_typeOfArgs args c _ h)
  | .named span name x :: args, c, s, h => by
    unfold typeOfArgs at h
    rcases List.mem_cons.1 h with rfl | h
    · exact List.mem_cons_self
    · exact List.mem_cons_of_mem _ (mem_of_mem_typeOfArgs args c _ h)
  | .output span name v negated :: args, c, s, h => by
    unfold typeOfArgs at h
    exact List.mem_cons_of_mem _ (mem_of_mem_typeOfArgs args c _ h)
  | .inferred span :: args, c, s, h => by
    unfold typeOfArgs at h
    exact List.mem_cons_of_mem _ (mem_of_mem_typeOfArgs args c _ h)

mutual

theorem typeOfVariable_keeps : ∀ v : Variable, (Node.expr (.variable v)).Throughout P →
    Keeps P (typeOfVariable v)
  -- Where something is reported, it is at the variable itself, or at an index, which is a child of
  -- it.
  | .named span name style, all => by
    have here : P span := all.here nofun
    unfold typeOfVariable
    refine (Keeps.lookup name).bind fun x => ?_
    split
    · exact (Keeps.markUsed name).bind fun _ => .pure _
    · refine Keeps.state.bind fun s => ?_
      split
      · exact (Keeps.resolve _).bind fun _ => .pure _
      · exact undefined_keeps name style here
  | .address _ _ _, _ => by
    unfold typeOfVariable
    exact .pure _
  | .member _ base _, all => by
    unfold typeOfVariable
    refine (typeOfVariable_keeps base (all.child List.mem_cons_self)).bind fun i => ?_
    split
    · exact .pure _
    · exact .pure _
  | .element span base indices, all => by
    have here : P span := all.here nofun
    unfold typeOfVariable
    refine (typeOfVariable_keeps base (all.child List.mem_cons_self)).bind fun i => ?_
    refine (checkIndices_keeps indices fun x hx =>
      all.child (List.mem_cons_of_mem _ (List.mem_map_of_mem hx))).bind fun _ => ?_
    split
    · split
      · exact (Keeps.report _ _ here).bind fun _ => .pure _
      · exact .pure _
    · exact .pure _
  | .deref _ base, all => by
    unfold typeOfVariable
    refine (typeOfVariable_keeps base (all.child List.mem_cons_self)).bind fun i => ?_
    split
    · exact .pure _
    · exact .pure _

/-- To type an expression is to report at places of the expression. -/
theorem typeOf_keeps : ∀ e : Expr, (Node.expr e).Throughout P → Keeps P (typeOf e)
  -- The recursion is that of the typing; a report is at the expression that was typed last.
  | .literal _ l, _ => by
    unfold typeOf
    exact (typeOfLiteral_keeps l).bind fun _ => .pure _
  | .variable v, all => by
    unfold typeOf
    exact typeOfVariable_keeps v all
  | .unary span op x, all => by
    have here : P span := all.here nofun
    unfold typeOf
    refine (typeOf_keeps x (all.child List.mem_cons_self)).bind fun i => ?_
    dsimp only
    split
    · exact .pure _
    · split
      · exact .pure _
      · exact (Keeps.report _ _ here).bind fun _ => .pure _
  | .binary span op l r, all => by
    have here : P span := all.here nofun
    unfold typeOf
    refine (typeOf_keeps l (all.child List.mem_cons_self)).bind fun i => ?_
    refine (typeOf_keeps r (all.child (List.mem_cons_of_mem _ List.mem_cons_self))).bind fun j => ?_
    exact (combine_keeps _ _ _ here).bind fun _ => .pure _
  | .paren _ x, all => by
    unfold typeOf
    exact typeOf_keeps x (all.child List.mem_cons_self)
  | .call span name args, all => by
    have here : P span := all.here nofun
    have inner (a : Arg) (ha : a ∈ args) : (Node.arg a).Throughout P :=
      all.child (List.mem_map_of_mem ha)
    unfold typeOf
    -- which arguments are typed depends on the run, but all are among those that are given
    refine (typeOfArgs_keeps args inner).bind_run fun c s => ?_
    refine (typeOfCall_keeps name here fun a ha => ?_).bind fun _ => .pure _
    exact (inner a.1 (mem_of_mem_typeOfArgs args c s ha)).here nofun
  | .repeated _ _ (some x), all => by
    unfold typeOf
    exact (typeOf_keeps x (all.child List.mem_cons_self)).bind fun _ => .pure _
  | .repeated _ _ none, _ => by
    unfold typeOf
    exact .pure _
  | .arrayInit _ elements, all => by
    unfold typeOf
    exact (typeOfAll_keeps elements fun x hx => all.child (List.mem_map_of_mem hx)).bind fun _ =>
      .pure _
  | .structInit _ fields, all => by
    unfold typeOf
    exact (typeOfArgs_keeps fields fun a ha => all.child (List.mem_map_of_mem ha)).bind fun _ =>
      .pure _

theorem typeOfArgs_keeps : ∀ args : List Arg, (∀ a ∈ args, (Node.arg a).Throughout P) →
    Keeps P (typeOfArgs args)
  | [], _ => by
    unfold typeOfArgs
    exact .pure _
  | .positional span x :: args, all => by
    unfold typeOfArgs
    refine (typeOf_keeps x ((all _ List.mem_cons_self).child List.mem_cons_self)).bind fun i => ?_
    exact (typeOfArgs_keeps args fun a ha => all a (List.mem_cons_of_mem _ ha)).bind fun _ => .pure _
  | .named span name x :: args, all => by
    unfold typeOfArgs
    refine (typeOf_keeps x ((all _ List.mem_cons_self).child List.mem_cons_self)).bind fun i => ?_
    exact (typeOfArgs_keeps args fun a ha => all a (List.mem_cons_of_mem _ ha)).bind fun _ => .pure _
  | .output _ _ v _ :: args, all => by
    unfold typeOfArgs
    refine (typeOfVariable_keeps v ((all _ List.mem_cons_self).child List.mem_cons_self)).bind
      fun i => ?_
    exact (Keeps.markRootAssigned v).bind fun _ =>
      typeOfArgs_keeps args fun a ha => all a (List.mem_cons_of_mem _ ha)
  | .inferred _ :: args, all => by
    unfold typeOfArgs
    exact typeOfArgs_keeps args fun a ha => all a (List.mem_cons_of_mem _ ha)

theorem checkIndices_keeps : ∀ xs : List Expr, (∀ x ∈ xs, (Node.expr x).Throughout P) →
    Keeps P (checkIndices xs)
  | [], _ => by
    unfold checkIndices
    exact .pure _
  | x :: xs, all => by
    have first := all x List.mem_cons_self
    have rest : Keeps P (checkIndices xs) :=
      checkIndices_keeps xs fun y hy => all y (List.mem_cons_of_mem _ hy)
    unfold checkIndices
    refine (typeOf_keeps x first).bind fun i => ?_
    dsimp only
    split
    · exact rest
    · exact (Keeps.report _ _ (first.here nofun)).bind fun _ => rest

theorem typeOfAll_keeps : ∀ xs : List Expr, (∀ x ∈ xs, (Node.expr x).Throughout P) →
    Keeps P (typeOfAll xs)
  | [], _ => by
    unfold typeOfAll
    exact .pure _
  | x :: xs, all => by
    unfold typeOfAll
    exact (typeOf_keeps x (all x List.mem_cons_self)).bind fun _ =>
      typeOfAll_keeps xs fun y hy => all y (List.mem_cons_of_mem _ hy)

end

/-! ### Statements -/

theorem typeOfTarget_keeps (v : Variable) (all : (Node.expr (.variable v)).Throughout P) :
    Keeps P (typeOfTarget v) := by
  -- all but a bare name are typed as if they were read
  have accesses : Keeps P (do
      let info ← typeOfVariable v
      markRootAssigned v
      return info) :=
    (typeOfVariable_keeps v all).bind fun _ => (Keeps.markRootAssigned v).bind fun _ => .pure _
  cases v with
  | named span name style =>
    have here : P span := all.here nofun
    unfold typeOfTarget
    refine (Keeps.lookup name).bind fun x => ?_
    split
    · exact (Keeps.markAssigned name).bind fun _ => .pure _
    · exact undefined_keeps name style here
  | address | member | element | deref => exact accesses

theorem checkWritable_keeps {v : Variable} (here : P v.span) : Keeps P (checkWritable v) := by
  unfold checkWritable
  split
  · refine (Keeps.lookup _).bind fun x => ?_
    split
    · split
      · exact Keeps.report _ _ here
      · split
        · exact Keeps.report _ _ here
        · exact .pure _
    · exact .pure _
  · exact .pure _

theorem checkAssignment_keeps {span : Span} {target : Variable} (op : AssignOp) {value : Expr}
    (here : P span) (left : (Node.expr (.variable target)).Throughout P)
    (right : (Node.expr value).Throughout P) :
    Keeps P (checkAssignment span target op value) := by
  have store : Keeps P (checkWritable target) := checkWritable_keeps (left.here nofun)
  unfold checkAssignment
  refine (typeOfTarget_keeps target left).bind fun place => (typeOf_keeps value right).bind fun v => ?_
  -- whichever type is stored in the end, that of the value or of an operation with it
  have last (t : Ty) : Keeps P (if place.type.accepts t = true then checkWritable target
      else report .error value.span (.typeMismatch place.type.display t.display) >>= fun _ =>
        checkWritable target) := by
    split
    · exact store
    · exact (Keeps.report _ _ (right.here nofun)).bind fun _ => store
  dsimp only
  split
  · exact (Preserves.pure _).bind last
  · exact (combine_keeps _ _ _ here).bind last

theorem isTruthValue_keeps (name : String) : Keeps P (isTruthValue name) := by
  unfold isTruthValue
  exact (Keeps.lookup name).bind fun _ => .pure _

theorem checkComparison_keeps (condition : Expr) (all : (Node.expr condition).Throughout P) :
    Keeps P (checkComparison condition) := by
  unfold checkComparison
  split
  · next span l r =>
    have here : P span := all.here nofun
    split
    · refine (isTruthValue_keeps _).bind fun a => ?_
      split
      · refine (isTruthValue_keeps _).bind fun b => ?_
        split
        · exact Keeps.report _ _ here
        · exact .pure _
      · exact .pure _
    · exact .pure _
  · exact .pure _

theorem checkCondition_keeps (condition : Expr) (all : (Node.expr condition).Throughout P) :
    Keeps P (checkCondition condition) := by
  unfold checkCondition
  refine (typeOf_keeps condition all).bind fun i => ?_
  dsimp only
  split
  · exact checkComparison_keeps condition all
  · exact (Keeps.report _ _ (all.here nofun)).bind fun _ => checkComparison_keeps condition all

theorem checkControl_keeps {span : Span} (control : String) (here : P span) :
    Keeps P (checkControl span control) := by
  unfold checkControl
  refine (Keeps.lookup control).bind fun x => ?_
  split
  · exact Keeps.report _ _ here
  · exact (Keeps.markUsed control).bind fun _ => (Keeps.markAssigned control).bind fun _ =>
      expectInteger_keeps _ here

theorem checkBound_keeps (x : Expr) (all : (Node.expr x).Throughout P) : Keeps P (checkBound x) :=
  (typeOf_keeps x all).bind fun _ => expectInteger_keeps _ (all.here nofun)

theorem checkLabel_keeps (selector : Ty) (x : Expr) (all : (Node.expr x).Throughout P) :
    Keeps P (checkLabel selector x) := by
  unfold checkLabel
  refine (typeOf_keeps x all).bind fun i => ?_
  dsimp only
  split
  · exact .pure _
  · exact Keeps.report _ _ (all.here nofun)

theorem checkResult_keeps (x : Expr) (all : (Node.expr x).Throughout P) :
    Keeps P (checkResult x) := by
  unfold checkResult
  refine (typeOf_keeps x all).bind fun i => Keeps.context.bind fun c => ?_
  split
  · split
    · exact .pure _
    · exact Keeps.report _ _ (all.here nofun)
  · exact .pure _

/-- The labels of a branch stand in it. -/
theorem throughout_labels {span : Span} {labels : List CaseSelector} {body : List Stmt}
    (all : (Node.caseBranch (.mk span labels body)).Throughout P) :
    ∀ x ∈ labels.flatMap CaseSelector.roots, (Node.expr x).Throughout P := by
  intro x hx
  obtain ⟨label, mem, hx⟩ := List.mem_flatMap.1 hx
  have inner : (Node.selector label).Throughout P :=
    all.child (List.mem_append_left _ (List.mem_map_of_mem mem))
  cases label with
  | value s v =>
    obtain rfl := List.mem_singleton.1 hx
    exact inner.child List.mem_cons_self
  | range s l h =>
    rcases List.mem_cons.1 hx with rfl | hx
    · exact inner.child List.mem_cons_self
    · obtain rfl := List.mem_singleton.1 hx
      exact inner.child (List.mem_cons_of_mem _ List.mem_cons_self)

mutual

theorem checkStmt_keeps : ∀ s : Stmt, (Node.stmt s).Throughout P → Keeps P (checkStmt s)
  -- The cases follow the checking, part after part. What a part may report stands in a child of the
  -- statement, and `Throughout.child` passes the property on to it.
  | .assignment span target op value, all => by
    unfold checkStmt
    exact checkAssignment_keeps op (all.here nofun) (all.child List.mem_cons_self)
      (all.child (List.mem_cons_of_mem _ List.mem_cons_self))
  -- The first branch is a child of its own; the others come behind it among the children.
  | .ifThen span (.mk place condition body) elsifs otherwise, all => by
    have first := all.child (k := .ifBranch (.mk place condition body)) List.mem_cons_self
    unfold checkStmt
    refine (checkCondition_keeps condition (first.child List.mem_cons_self)).bind fun _ => ?_
    refine (checkAll_keeps body fun s hs =>
      first.child (List.mem_cons_of_mem _ (List.mem_map_of_mem hs))).bind fun _ => ?_
    refine (checkElsifs_keeps elsifs fun b hb => all.child (List.mem_append_left _
      (List.mem_cons_of_mem _ (List.mem_map_of_mem hb)))).bind fun _ => ?_
    cases otherwise with
    | some ss => exact checkAll_keeps ss fun s hs =>
        all.child (List.mem_append_right _ (List.mem_map_of_mem hs))
    | none => exact .pure _
  | .caseOf _ selector branches otherwise, all => by
    unfold checkStmt
    refine (typeOf_keeps selector (all.child List.mem_cons_self)).bind fun i => ?_
    refine (checkBranches_keeps i.type branches fun b hb => all.child (List.mem_append_left _
      (List.mem_cons_of_mem _ (List.mem_map_of_mem hb)))).bind fun _ => ?_
    cases otherwise with
    | some ss => exact checkAll_keeps ss fun s hs =>
        all.child (List.mem_append_right _ (List.mem_map_of_mem hs))
    | none => exact .pure _
  | .forLoop span control start stop step body, all => by
    -- A step that is given is the third child, behind the bounds.
    have bounds : ∀ x ∈ step, (Node.expr x).Throughout P := by
      rintro x rfl
      exact all.child (List.mem_append_left _ (List.mem_cons_of_mem _ (List.mem_cons_of_mem _
        List.mem_cons_self)))
    unfold checkStmt
    refine (checkControl_keeps control (all.here nofun)).bind fun _ => ?_
    refine (checkBound_keeps start (all.child List.mem_cons_self)).bind fun _ => ?_
    refine (checkBound_keeps stop (all.child (List.mem_cons_of_mem _ List.mem_cons_self))).bind
      fun _ => ?_
    have inner : Keeps P (checkAll body) := checkAll_keeps body fun s hs =>
      all.child (List.mem_append_right _ (List.mem_map_of_mem hs))
    cases step with
    | some x => exact (checkBound_keeps x (bounds x rfl)).bind fun _ => inner
    | none => exact (Preserves.pure _).bind fun _ => inner
  | .whileLoop _ condition body, all => by
    unfold checkStmt
    exact (checkCondition_keeps condition (all.child List.mem_cons_self)).bind fun _ =>
      checkAll_keeps body fun s hs => all.child (List.mem_cons_of_mem _ (List.mem_map_of_mem hs))
  | .repeatLoop _ body condition, all => by
    unfold checkStmt
    -- The body is checked before the condition, and comes first among the children too.
    refine (checkAll_keeps body fun s hs =>
      all.child (List.mem_append_left _ (List.mem_map_of_mem hs))).bind fun _ => ?_
    exact checkCondition_keeps condition
      (all.child (List.mem_append_right (body.map Node.stmt) List.mem_cons_self))
  | .leave _ value, all => by
    unfold checkStmt
    cases value with
    | some x => exact checkResult_keeps x (all.child List.mem_cons_self)
    | none => exact .pure _
  | .call _ span name args, all => by
    unfold checkStmt
    exact (typeOf_keeps _ (all.child List.mem_cons_self)).bind fun _ => .pure _
  | .invoke _ callee args, all => by
    unfold checkStmt
    refine (typeOfVariable_keeps callee (all.child List.mem_cons_self)).bind fun _ => ?_
    exact (typeOfArgs_keeps args fun a ha =>
      all.child (List.mem_cons_of_mem _ (List.mem_map_of_mem ha))).bind fun _ => .pure _
  | .region _ _ body, all => by
    unfold checkStmt
    exact checkAll_keeps body fun s hs => all.child (List.mem_map_of_mem hs)
  | .exitLoop _, _ | .nextPass _, _ | .empty _, _ | .goto _ _, _ | .label _ _, _ => by
    unfold checkStmt
    exact .pure _

/-- To check statements is to report at places of the statements. -/
theorem checkAll_keeps : ∀ ss : List Stmt, (∀ s ∈ ss, (Node.stmt s).Throughout P) →
    Keeps P (checkAll ss)
  | [], _ => by
    unfold checkAll
    exact .pure _
  | s :: ss, all => by
    unfold checkAll
    exact (checkStmt_keeps s (all s List.mem_cons_self)).bind fun _ =>
      checkAll_keeps ss fun t ht => all t (List.mem_cons_of_mem _ ht)

theorem checkElsifs_keeps : ∀ bs : List IfBranch, (∀ b ∈ bs, (Node.ifBranch b).Throughout P) →
    Keeps P (checkElsifs bs)
  | [], _ => by
    unfold checkElsifs
    exact .pure _
  | .mk _ condition body :: bs, all => by
    have first := all _ List.mem_cons_self
    unfold checkElsifs
    refine (checkCondition_keeps condition (first.child List.mem_cons_self)).bind fun _ => ?_
    refine (checkAll_keeps body fun s hs =>
      first.child (List.mem_cons_of_mem _ (List.mem_map_of_mem hs))).bind fun _ => ?_
    exact checkElsifs_keeps bs fun b hb => all b (List.mem_cons_of_mem _ hb)

theorem checkBranches_keeps (t : Ty) : ∀ bs : List CaseBranch,
    (∀ b ∈ bs, (Node.caseBranch b).Throughout P) → Keeps P (checkBranches t bs)
  | [], _ => by
    unfold checkBranches
    exact .pure _
  | .mk _ labels body :: bs, all => by
    have first := all _ List.mem_cons_self
    unfold checkBranches
    refine (Preserves.forM fun x hx => checkLabel_keeps t x (throughout_labels first x hx)).bind
      fun _ => ?_
    refine (checkAll_keeps body fun s hs =>
      first.child (List.mem_append_right _ (List.mem_map_of_mem hs))).bind fun _ => ?_
    exact checkBranches_keeps t bs fun b hb => all b (List.mem_cons_of_mem _ hb)

end

end Check

end Plc

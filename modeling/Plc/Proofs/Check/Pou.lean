/-
Diagnostics of an organization unit stand in it.

All that is declared around a unit goes into the outermost scope, which the search for unused
variables leaves out.  What is declared and checked inside of it stands at places of the unit or of
its methods, and these lie within its span when the unit comes from a text.

* `Node.throughout_of_encloses` — where nodes enclose their children, they contain all below them;
* `Pou.stand_diagnostics` — a property of all places of a unit is one of all its diagnostics;
* `Reading.contains_diagnostics` — diagnostics of units that are read lie in these.
-/
import Plc.Check.Pou
import Plc.Proofs.Check.Stands
import Plc.Proofs.Nesting.Unit
import Plc.Proofs.Scope.Step

namespace Plc

/-! ### Nodes of a unit -/

namespace Node

variable {P : Span → Prop} {n k : Node}

/-- Where every node encloses its children, a node contains all nodes below it but annotations. -/
theorem throughout_of_encloses (h : ∀ k ∈ n.nodes, k.Encloses) :
    n.Throughout fun s => n.span.contains s = true := by
  intro m hm plain
  -- on the number of nodes, as children are no structural part of a node
  induction count : n.nodes.length using Nat.strongRecOn generalizing n with
  | ind count ih =>
    rw [nodes_eq, List.mem_cons] at hm
    rcases hm with rfl | below
    · exact Span.contains_iff.2 ⟨Nat.le_refl _, Nat.le_refl _⟩
    · obtain ⟨child, mem, hm⟩ := List.mem_flatMap.1 below
      rcases h n n.mem_nodes_self child mem with covers | ⟨d, p, -, rfl, -⟩
      · have smaller := length_nodes_lt_of_mem_children mem
        exact Span.contains_trans covers (ih _ (count ▸ smaller)
          (fun j hj => h j (nodes_subset_of_mem_children mem hj)) hm rfl)
      · exact absurd (List.mem_singleton.1 hm) (plain p)

theorem nodes_subset_of_mem_nodes (h : k ∈ n.nodes) : k.nodes ⊆ n.nodes := by
  -- on the number of nodes again
  induction count : n.nodes.length using Nat.strongRecOn generalizing n with
  | ind count ih =>
    rw [nodes_eq, List.mem_cons] at h
    rcases h with rfl | below
    · exact List.Subset.refl _
    · obtain ⟨child, mem, hk⟩ := List.mem_flatMap.1 below
      have smaller := length_nodes_lt_of_mem_children mem
      exact fun j hj => nodes_subset_of_mem_children mem (ih _ (count ▸ smaller) hk rfl hj)

end Node

mutual

theorem Decl.mem_nodes_of_mem_flatten {d' : Decl} : ∀ d : Decl, d' ∈ d.flatten →
    Node.decl d' ∈ (Node.decl d).nodes
  | .space _ _ _ _ ds, h => by
    rcases List.mem_cons.1 h with rfl | h
    · exact Node.mem_nodes_self _
    · obtain ⟨d, hd, mem⟩ := Decl.mem_nodes_of_mem_flattenAll ds h
      exact Node.nodes_subset_of_mem_children (List.mem_map_of_mem hd) mem
  | .pou _, h | .types _ _ _, h | .globals _ _, h => by
    obtain rfl := List.mem_singleton.1 h
    exact Node.mem_nodes_self _

theorem Decl.mem_nodes_of_mem_flattenAll {d' : Decl} : ∀ ds : List Decl, d' ∈ Decl.flattenAll ds →
    ∃ d ∈ ds, Node.decl d' ∈ (Node.decl d).nodes
  | [], h => absurd h List.not_mem_nil
  | d :: ds, h => by
    rcases List.mem_append.1 h with h | h
    · exact ⟨d, List.mem_cons_self, Decl.mem_nodes_of_mem_flatten d h⟩
    · obtain ⟨e, he, mem⟩ := Decl.mem_nodes_of_mem_flattenAll ds h
      exact ⟨e, List.mem_cons_of_mem _ he, mem⟩

end

/-- The organization units of a text are nodes of its tree. -/
theorem CompilationUnit.mem_nodes_of_mem_pous {u : CompilationUnit} {p : Pou} (h : p ∈ u.pous) :
    Node.decl (.pou p) ∈ (Node.unit u).nodes := by
  obtain ⟨d, hd, eq⟩ := List.mem_filterMap.1 h
  split at eq
  · cases eq
    obtain ⟨top, mem, below⟩ := Decl.mem_nodes_of_mem_flattenAll u.topLevel hd
    exact Node.nodes_subset_of_mem_children (List.mem_map_of_mem mem) below
  · cases eq

/-- All places of a unit's code that a check looks at have the property. -/
structure Code.Throughout (P : Span → Prop) (c : Code) : Prop where
  here : P c.span
  vars : ∀ v ∈ c.vars, P v.2.span
  body : ∀ s ∈ c.body, (Node.stmt s).Throughout P

namespace Pou

variable {P : Span → Prop} {p : Pou}

theorem ofCode_subset_children (p : Pou) : Node.ofCode p.code ⊆ (Node.decl (.pou p)).children := by
  cases p <;> first
    | exact List.Subset.refl _
    | exact List.subset_append_left _ _

theorem throughout_code (all : (Node.decl (.pou p)).Throughout P) : p.code.Throughout P := by
  have inner {k : Node} (mem : k ∈ Node.ofCode p.code) : k.Throughout P :=
    all.child (ofCode_subset_children p mem)
  refine ⟨all.here nofun, fun v hv => ?_, fun s hs => ?_⟩
  · obtain ⟨block, hb, hv⟩ := List.mem_flatMap.1 hv
    obtain ⟨d, hd, rfl⟩ := List.mem_map.1 hv
    have outer : (Node.varBlock block).Throughout P :=
      inner (List.mem_append_left _ (List.mem_append_left _ (List.mem_map_of_mem hb)))
    exact (outer.child (List.mem_map_of_mem hd)).here nofun
  · exact inner (List.mem_append_left _ (List.mem_append_right _ (List.mem_map_of_mem hs)))

theorem throughout_methods (all : (Node.decl (.pou p)).Throughout P) :
    ∀ m ∈ p.methods, m.code.Throughout P := by
  intro m hm
  have mem : Node.decl (.pou (.method m)) ∈ (Node.decl (.pou p)).children := by
    cases p with
    | functionBlock | classDecl | interface => exact List.mem_append_right _ (List.mem_map_of_mem hm)
    | _ => exact absurd hm List.not_mem_nil
  exact throughout_code (all.child mem)

end Pou

/-! ### Symbols -/

/-- An unused variable is found where it is declared. -/
theorem Symbol.stand_unused {P : Span → Prop} {x : Symbol} (here : P x.span) : Stand P x.unused := by
  unfold Symbol.unused
  split
  · refine Stand.append ?_ (stand_ite here)
    split
    · exact stand_nil
    · intro d hd
      obtain rfl := List.mem_singleton.1 hd
      exact here
  · exact stand_nil

namespace Scopes

variable {P : Span → Prop} {t : Scopes} {x : Symbol}

theorem mem_symbols_define {y : Symbol} {j : Nat}
    (h : y ∈ ((t.define x).2.scopeAt j).symbols) :
    y ∈ (t.scopeAt j).symbols ∨ j = t.current ∧ y = x := by
  rcases t.define_eq x with ⟨z, -, eq⟩ | ⟨-, eq⟩
  · rw [eq] at h
    exact .inl h
  · rw [eq, scopeAt, modifyAt, List.getElem?_modify] at h
    rw [scopeAt]
    split at h
    · next same =>
      cases found : t.list[j]? with
      | none =>
        rw [found] at h
        exact absurd h List.not_mem_nil
      | some c =>
        rw [found] at h
        rcases List.mem_append.1 h with h | h
        · exact .inl h
        · exact .inr ⟨same.symm, List.mem_singleton.1 h⟩
    · left
      cases found : t.list[j]? <;> rw [found] at h <;> exact h

/-- A symbol may be declared anywhere in the outermost scope. -/
theorem Declares.define (h : t.Declares P) (place : t.current = 0 ∨ P x.span) :
    (t.define x).2.Declares P := by
  intro j above y hy
  rcases mem_symbols_define hy with hy | ⟨rfl, rfl⟩
  · exact h j above y hy
  · exact place.resolve_left (Nat.ne_of_gt above)

theorem Declares.enter (h : t.Declares P) (name : String) : (t.enter name).Declares P := by
  intro j above y hy
  rw [scopeAt_enter] at hy
  split at hy
  · exact absurd hy List.not_mem_nil
  · exact h j above y hy

theorem current_define (t : Scopes) (x : Symbol) : (t.define x).2.current = t.current := by
  rcases t.define_eq x with ⟨_, -, eq⟩ | ⟨-, eq⟩
  · rw [eq]
  · rw [eq]
    rfl

/-- What is wrong with a definition is found where it stands. -/
theorem span_of_define {d : Diagnostic} (h : (t.define x).1 = some d) : d.span = x.span := by
  unfold define at h
  split at h
  · cases h
    rfl
  · obtain ⟨_, -, rfl⟩ := Option.map_eq_some_iff.1 h
    rfl

/-- Unused variables are found where they are declared. -/
theorem Declares.stand_unused (h : t.Declares P) : Stand P (t.unused false) := by
  intro d hd
  obtain ⟨s, hs, hd⟩ := List.mem_flatMap.1 hd
  obtain ⟨y, hy, hd⟩ := List.mem_flatMap.1 hd
  refine Symbol.stand_unused ?_ d hd
  obtain ⟨i, eq⟩ := List.getElem?_of_mem (show s ∈ t.list.drop 1 from hs)
  rw [List.getElem?_drop] at eq
  refine h (1 + i) (by omega) y ?_
  rw [scopeAt, eq]
  exact hy

end Scopes

/-! ### Checks of a unit -/

namespace Check

variable {P : Span → Prop}

theorem ofSpec_preserves {I : State → Prop} (types : ∀ s r, I s → I { s with types := r })
    (spec : TypeSpec) : Preserves I (ofSpec spec) :=
  fun _ s h => types s _ h

/-- The state has declared nothing but globals, and is in the outermost scope. -/
structure State.Outside (P : Span → Prop) (s : State) : Prop where
  stands : s.Stands P
  place : s.scopes.current = 0

theorem define_outside (x : Symbol) : Preserves (State.Outside P) (define x) := by
  refine fun c s h => ⟨⟨h.stands.found, h.stands.symbols.define (.inl h.place)⟩, ?_⟩
  exact (s.scopes.current_define x).trans h.place

theorem ofSpec_outside (spec : TypeSpec) : Preserves (State.Outside P) (ofSpec spec) :=
  ofSpec_preserves (fun _ _ h => ⟨⟨h.stands.found, h.stands.symbols⟩, h.place⟩) spec

theorem defineGlobals_outside (u : CompilationUnit) :
    Preserves (State.Outside P) (defineGlobals u) := by
  refine Preserves.forM fun d _ => ?_
  split
  · exact Preserves.forM fun v _ => (ofSpec_outside v.type).bind fun _ =>
      (define_outside _).bind fun _ => .pure _
  · exact .pure _

theorem ofSpec_keeps (spec : TypeSpec) : Keeps P (ofSpec spec) :=
  ofSpec_preserves (fun _ _ h => ⟨h.found, h.symbols⟩) spec

theorem define_keeps {x : Symbol} (here : P x.span) : Keeps P (define x) :=
  fun _ _ h => ⟨h.found, h.symbols.define (.inr here)⟩

/-- What is wrong with a definition is reported where it stands. -/
theorem defineVariables_keeps {c : Code} (all : c.Throughout P) : Keeps P (defineVariables c) := by
  refine Preserves.forM fun v hv => (ofSpec_keeps v.2.type).bind fun t => ?_
  have here : P v.2.span := all.vars v hv
  refine Preserves.bind_run (define_keeps here) fun c s => ?_
  -- the report is about what the definition answered, and that stands where the variable does
  cases found : (run (define (.ofDecl v.1 v.2 (some t))) c s).1 with
  | none => exact .pure _
  | some d =>
    refine fun c' s' h => ⟨h.found.append fun e he => ?_, h.symbols⟩
    obtain rfl := List.mem_singleton.1 he
    exact (Scopes.span_of_define found).symm ▸ here

theorem within_keeps {m : Check Unit} (name : String) (h : Keeps P m) : Keeps P (within name m) := by
  have enters : Keeps P (modify fun s => { s with scopes := s.scopes.enter name } : Check Unit) :=
    fun _ _ h => ⟨h.found, h.symbols.enter name⟩
  have leaves : Keeps P (modify fun s => { s with scopes := s.scopes.exit } : Check Unit) :=
    fun _ _ h => ⟨h.found, h.symbols⟩
  exact enters.bind fun _ => h.bind fun _ => leaves

theorem withReader_keeps {m : Check Unit} (f : Context → Context) (h : Keeps P m) :
    Keeps P (withReader f m) :=
  fun c s hs => h (f c) s hs

theorem signatureOf_keeps (c : Code) (result : Option TypeSpec) : Keeps P (signatureOf c result) := by
  unfold signatureOf
  dsimp only
  refine Preserves.bind ?_ fun params => ?_
  · refine Preserves.mapM (fun v => ?_) _
    exact (ofSpec_keeps v.2.type).bind fun _ => .pure _
  · refine Preserves.bind ?_ fun _ => .pure _
    cases result with
    | none => exact .pure _
    | some t => exact (ofSpec_keeps t).bind fun _ => .pure _

theorem signaturesOf_keeps (u : CompilationUnit) : Keeps P (signaturesOf u) := by
  unfold signaturesOf
  refine Preserves.bind ?_ fun _ => .pure _
  refine Preserves.filterMapM (fun p => ?_) u.pous
  split
  · exact (signatureOf_keeps _ _).bind fun _ => .pure _
  · exact .pure _

/-- What comes first leaves the state where it is, and what comes then leads elsewhere. -/
theorem Preserves.andThen {α β : Type} {I J : State → Prop} {m : Check α} {f : α → Check β}
    (hm : Preserves I m) (hf : ∀ a c s, I s → J (run (f a) c s).2) (c : Context) (s : State)
    (h : I s) : J (run (m >>= f) c s).2 :=
  hf _ c _ (hm c s h)

theorem checkMethod_keeps (owner : String) (functions : Keyed Signature) {m : Method}
    (all : m.code.Throughout P) : Keeps P (checkMethod owner functions m) := by
  refine within_keeps _ (Preserves.bind ?_ fun result => ?_)
  · cases m.returnType with
    | none => exact .pure _
    | some t => exact (ofSpec_keeps t).bind fun _ => .pure _
  · have inner : Keeps P (do
        defineVariables m.code
        withReader (fun _ => { functions, result }) (checkAll m.code.body)) :=
      (defineVariables_keeps all).bind fun _ => withReader_keeps _ (checkAll_keeps _ all.body)
    have own : Keeps P (defineResult m.code result) :=
      (define_keeps all.here).bind fun _ => .pure _
    dsimp only
    split
    · exact own.bind fun _ => inner
    · exact inner

/-- The smells of a unit stand in it, and so do its unused variables. -/
theorem smells_keeps (config : SmellConfig) {p : Pou} (own : p.code.Throughout P)
    (methods : ∀ m ∈ p.methods, m.code.Throughout P) :
    Keeps P (modify fun s => { s with
      found := s.found ++ Smell.ofPou config p ++ s.scopes.unused false } : Check Unit) := by
  have smells : Stand P (Smell.ofPou config p) := by
    rw [Smell.ofPou_eq]
    refine (Smell.stand_ofBody own.here own.body).append fun d hd => ?_
    obtain ⟨m, hm, hd⟩ := List.mem_flatMap.1 hd
    exact Smell.stand_ofBody (methods m hm).here (methods m hm).body d hd
  exact fun _ s h => ⟨(h.found.append smells).append h.symbols.stand_unused, h.symbols⟩

theorem checkPou_stands {p : Pou} (config : SmellConfig) (unit : Option CompilationUnit)
    (own : p.code.Throughout P) (methods : ∀ m ∈ p.methods, m.code.Throughout P) (c : Context)
    (s : State) (h : s.Outside P) : (run (checkPou p config unit) c s).2.Stands P := by
  have body (functions : Keyed Signature) (result : Option Ty) : Keeps P (do
      withReader (fun _ => { functions, result }) (checkAll p.code.body)
      p.methods.forM (checkMethod p.name functions)
      modify fun s => { s with
        found := s.found ++ Smell.ofPou config p ++ s.scopes.unused false }) := by
    refine (withReader_keeps _ (checkAll_keeps _ own.body)).bind fun _ => ?_
    refine (Preserves.forM fun m hm => checkMethod_keeps _ _ (methods m hm)).bind fun _ => ?_
    exact smells_keeps config own methods
  have inside {rest : Check Unit} (hrest : Keeps P rest) (c : Context) (s : State)
      (h : s.Outside P) :
      (run (within p.name (defineVariables p.code >>= fun _ => rest)) c s).2.Stands P :=
    within_keeps _ ((defineVariables_keeps own).bind fun _ => hrest) c s h.stands
  -- globals and the result come first, in the outermost scope, and only then the unit's own scope
  unfold checkPou
  refine Preserves.andThen ?_ (fun _ => Preserves.andThen ?_ fun result => ?_) c s h
  · cases unit with
    | none => exact .pure _
    | some u => exact defineGlobals_outside u
  · cases p.returnType? with
    | none => exact .pure _
    | some t => exact (ofSpec_outside t).bind fun _ => .pure _
  · dsimp only
    split
    -- the name of a function is declared outside of it
    on_goal 1 => refine Preserves.andThen ((define_outside _).bind fun _ => .pure _) fun _ => ?_
    all_goals
      refine inside ?_
      cases unit with
      | none => exact (Preserves.pure _).bind fun functions => body functions result
      | some u => exact (signaturesOf_keeps u).bind fun functions => body functions result

end Check

/-- A property of all places of a unit is one of the places of all its diagnostics, whatever else is
declared in its text or outside of it. -/
theorem Pou.stand_diagnostics {P : Span → Prop} {p : Pou} (all : (Node.decl (.pou p)).Throughout P)
    (config : SmellConfig) (unit : Option CompilationUnit) (types : Option Registry)
    (externals : List Symbol) : Stand P (p.diagnostics config unit types externals) := by
  have outside (t : Scopes) (h : t.Declares P ∧ t.current = 0) :
      (externals.foldl (fun (t : Scopes) x => (t.define x).2) t).Declares P ∧
        (externals.foldl (fun (t : Scopes) x => (t.define x).2) t).current = 0 := by
    induction externals generalizing t with
    | nil => exact h
    | cons x xs ih =>
      exact ih _ ⟨h.1.define (.inl h.2), (t.current_define x).trans h.2⟩
  have new : ({} : Scopes).Declares P ∧ ({} : Scopes).current = 0 := by
    refine ⟨fun i above x hx => ?_, rfl⟩
    obtain ⟨i, rfl⟩ := Nat.exists_eq_succ_of_ne_zero (Nat.ne_of_gt above)
    exact absurd hx List.not_mem_nil
  intro d hd
  -- the findings are sorted at the end
  have found := (Diagnostic.sort_perm _).mem_iff.1 hd
  exact (Check.checkPou_stands config unit (throughout_code all) (throughout_methods all) {} _
    ⟨⟨stand_nil, (outside {} new).1⟩, (outside {} new).2⟩).found d found

namespace Reading

/-- In a unit of which all nodes enclose their children, diagnostics stand in what they are about. -/
theorem contains_of_encloses {u : CompilationUnit} (h : ∀ n ∈ (Node.unit u).nodes, n.Encloses)
    {p : Pou} (hp : p ∈ u.pous) (config : SmellConfig) :
    ∀ d ∈ p.diagnostics config (some u), p.code.span.contains d.span = true := by
  have mem := CompilationUnit.mem_nodes_of_mem_pous hp
  have all : (Node.decl (.pou p)).Throughout fun s => p.code.span.contains s = true :=
    Node.throughout_of_encloses fun k hk => h k (Node.nodes_subset_of_mem_nodes mem hk)
  exact Pou.stand_diagnostics all config (some u) none []

/-- In every dialect and under any limits, whatever is found in an organization unit of a text that
is read stands within that unit, and so it does in what is left where errors are recovered from. -/
theorem contains_diagnostics (r : Reading) :
    (∀ u, r.unit = .ok u → ∀ p ∈ u.pous, ∀ (config : SmellConfig),
      ∀ d ∈ p.diagnostics config (some u), p.code.span.contains d.span = true) ∧
    ∀ u errors, r.unitRecovering = .ok (u, errors) → ∀ p ∈ u.pous, ∀ (config : SmellConfig),
      ∀ d ∈ p.diagnostics config (some u), p.code.span.contains d.span = true :=
  ⟨fun _ h _ hp config => contains_of_encloses (encloses_of_unit h) hp config,
    fun _ _ h _ hp config => contains_of_encloses (encloses_of_run h) hp config⟩

/-- A global name, and a unit that hides it with a variable that is never used. -/
def hidingUnit : Reading :=
  ⟨"VAR_GLOBAL x : INT; END_VAR PROGRAM p VAR x : INT; END_VAR END_PROGRAM".toList, .generic, {}⟩

/-- Three things are found in the unit. -/
theorem contains_diagnostics_hidingUnit :
    (∃ u, hidingUnit.unit = .ok u ∧ ∃ p ∈ u.pous, (p.diagnostics {} (some u)).length = 3 ∧
      ∀ d ∈ p.diagnostics {} (some u), p.code.span.contains d.span = true) ∧
    ∃ u errors, hidingUnit.unitRecovering = .ok (u, errors) ∧ ∀ p ∈ u.pous,
      ∀ d ∈ p.diagnostics {} (some u), p.code.span.contains d.span = true := by
  have read : hidingUnit.unit.toOption.map (fun u => u.pous.map fun p =>
      (Check.run (Check.checkPou p {} (some u)) {} { types := Registry.ofUnit u }).2.found.length) =
        some [3] := by decide +kernel
  have around : hidingUnit.unitRecovering.toOption.isSome = true := by decide +kernel
  constructor
  · obtain ⟨u, h, lengths⟩ := ok_of_map read
    obtain ⟨p, one, found⟩ := List.map_eq_singleton_iff.1 lengths
    have mem : p ∈ u.pous := one ▸ List.mem_cons_self
    exact ⟨u, h, p, mem, (Diagnostic.sort_perm _).length_eq.trans found,
      (contains_diagnostics hidingUnit).1 u h p mem {}⟩
  · obtain ⟨⟨u, errors⟩, h⟩ := ok_of_isSome around
    exact ⟨u, errors, h, fun p hp => (contains_diagnostics hidingUnit).2 u errors h p hp {}⟩

end Reading

end Plc

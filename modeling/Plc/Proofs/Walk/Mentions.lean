/-
Variables that a walk comes by.

A walk over an expression reports a chain of accesses where it meets it, and then passes over all that
belongs to the chain.  So what is reported are the names in the expression, each with the longest chain
that it is the root of.

* `Expr.mentions_eq` — what is reported is what a recursion over the expression lists;
* `Chain` — a node is a chain of accesses down to another one;
* `Expr.mentions_told` — each name is reported once, in the order of the walk, with its longest chain.
-/
import Mathlib.Data.List.Forall2
import Plc.Tree.Walk

namespace Plc

open Anatomy (Place placeFrom placeFrom_cons placeFrom_nil)

/-! ### Variables by recursion -/

/-- An expression that is no variable mentions what its parts do. -/
theorem Expr.accesses_eq {e : Expr} (h : e.isVariable = false) :
    e.accesses = e.parts.flatMap Expr.accesses := by
  cases e with
  | «variable» => exact absurd h Bool.true_eq_false.mp
  | repeated s n x => cases x <;> simp [Expr.accesses, Expr.parts]
  | _ => simp [Expr.accesses, Expr.parts, Expr.accessesAll_eq, Arg.accessesAll_eq]

/-- The base of an access and what stands in its indices. -/
inductive Variable.Opens : Variable → Variable → List Expr → Prop
  | member (s base m) : Opens (.member s base m) base []
  | element (s base indices) : Opens (.element s base indices) base indices
  | deref (s base) : Opens (.deref s base) base []

theorem Variable.plain_or_opens (v : Variable) :
    v.parts = [] ∧ v.innerAccesses = [] ∨ ∃ base indices, v.Opens base indices := by
  cases v with
  | named | address => exact .inl ⟨rfl, rfl⟩
  | member => exact .inr ⟨_, _, .member _ _ _⟩
  | element => exact .inr ⟨_, _, .element _ _ _⟩
  | deref => exact .inr ⟨_, _, .deref _ _⟩

namespace Variable.Opens

variable {v base : Variable} {indices : List Expr}

theorem parts (h : v.Opens base indices) : v.parts = .variable base :: indices := by
  cases h <;> rfl

theorem root (h : v.Opens base indices) : v.root? = base.root? := by
  cases h <;> rfl

theorem innerAccesses (h : v.Opens base indices) :
    v.innerAccesses = base.innerAccesses ++ indices.flatMap Expr.accesses := by
  cases h <;> simp [Variable.innerAccesses, Expr.accessesAll_eq]

theorem chainPlaces (h : v.Opens base indices) (p : Place) :
    v.chainPlaces p = p :: base.chainPlaces (0 :: p) := by
  cases h <;> rfl

end Variable.Opens

/-! ### Places below a place -/

theorem not_suffix_of_ne {i j : Nat} {p q : Place} (h : (i :: p) <:+ q) (ne : i ≠ j) :
    ¬(j :: p) <:+ q := by
  intro h'
  have same := (List.suffix_of_suffix_length_le h h' (Nat.le_refl _)).eq_of_length (by simp)
  exact ne (List.cons.inj same).1

/-- What belongs to a chain is below the place of the chain. -/
theorem Variable.suffix_of_mem_chainPlaces {v : Variable} {p q : Place}
    (h : q ∈ v.chainPlaces p) : p <:+ q := by
  fun_induction Variable.chainPlaces p v with
  | case1 | case2 => exact List.mem_singleton.1 h ▸ List.suffix_refl _
  | case3 _ _ _ _ ih | case4 _ _ _ _ ih | case5 _ _ _ ih =>
    rcases List.mem_cons.1 h with rfl | h
    · exact List.suffix_refl _
    · exact (List.suffix_cons _ _).trans (ih h)

namespace Expr.Met

/-- A walk on from what has been met. -/
def run (m : Met) (stack : List (Place × Expr)) : Met :=
  (Expr.anatomy.placed.walk stack).foldl meet m

@[simp] theorem run_nil (m : Met) : m.run [] = m := by
  rw [run, Anatomy.walk_nil, List.foldl_nil]

theorem run_append (m : Met) (stack waiting : List (Place × Expr)) :
    m.run (stack ++ waiting) = (m.run stack).run waiting := by
  rw [run, Anatomy.walk_append, List.foldl_append]
  rfl

/-- A node is met before its parts. -/
theorem run_singleton (m : Met) (p : Place) (e : Expr) :
    m.run [(p, e)] = (m.meet (p, e)).run (placeFrom p 0 e.parts) := by
  rw [run, Anatomy.walk_singleton]
  rfl

/-! ### What is met once -/

/-- Nothing from a place on down belongs to a chain that has been met. -/
def Fresh (m : Met) (p : Place) : Prop :=
  ∀ q ∈ m.covered, ¬p <:+ q

/-- From a place on down, what belongs to one chain has been met, and nothing else. -/
structure Inside (m : Met) (p : Place) (v : Variable) : Prop where
  chain : v.chainPlaces p ⊆ m.covered
  only : ∀ q ∈ m.covered, p <:+ q → q ∈ v.chainPlaces p

/-- A walk below a place reports some variables. -/
structure Reports (m : Met) (p : Place) (stack : List (Place × Expr))
    (es : List (String × Variable)) : Prop where
  found : (m.run stack).found = m.found ++ es
  covered : ∀ q ∈ (m.run stack).covered, q ∈ m.covered ∨ p <:+ q

variable {m : Met} {p : Place} {k : Nat} {stack waiting : List (Place × Expr)}
  {es fs : List (String × Variable)}

theorem Fresh.below (h : m.Fresh p) : m.Fresh (k :: p) :=
  fun q hq below => h q hq ((List.suffix_cons k p).trans below)

theorem reports_nil : m.Reports p [] [] := by
  constructor
  · rw [run_nil, List.append_nil]
  · rw [run_nil]
    exact fun q hq => .inl hq

theorem Reports.above (h : m.Reports (k :: p) stack es) : m.Reports p stack es where
  found := h.found
  covered q hq := (h.covered q hq).imp_right ((List.suffix_cons k p).trans ·)

theorem Reports.append (h : m.Reports p stack es) (h' : (m.run stack).Reports p waiting fs) :
    m.Reports p (stack ++ waiting) (es ++ fs) := by
  constructor
  · rw [run_append, h'.found, h.found, List.append_assoc]
  · intro q hq
    rw [run_append] at hq
    rcases h'.covered q hq with hq | below
    · exact h.covered q hq
    · exact .inr below

/-- A place stays fresh while others are walked. -/
theorem Reports.fresh {j : Nat} (h : m.Reports (k :: p) stack es) (ne : k ≠ j)
    (fresh : m.Fresh (j :: p)) : (m.run stack).Fresh (j :: p) := by
  intro q hq below
  rcases h.covered q hq with hq | other
  · exact fresh q hq below
  · exact not_suffix_of_ne other ne below

/-- Parts of which none has been met report what each of them mentions. -/
theorem reports_placeFrom {xs : List Expr}
    (each : ∀ x ∈ xs, ∀ m p, Fresh m p → Reports m p [(p, x)] x.accesses)
    (fresh : ∀ j ≥ k, m.Fresh (j :: p)) :
    m.Reports p (placeFrom p k xs) (xs.flatMap Expr.accesses) := by
  induction xs generalizing m k with
  | nil => exact reports_nil
  | cons x xs ih =>
    have first := each x List.mem_cons_self m (k :: p) (fresh k (Nat.le_refl k))
    have rest := ih (m := m.run [(k :: p, x)]) (k := k + 1)
      (fun y hy => each y (List.mem_cons_of_mem _ hy))
      fun j hj => first.fresh (by omega) (fresh j (by omega))
    exact first.above.append rest

/-- Inside of a chain, no access is reported, but what stands in the indices is. -/
def Silent (v : Variable) : Prop :=
  ∀ m p, Inside m p v → Reports m p (placeFrom p 0 v.parts) v.innerAccesses

theorem Inside.opened {v base : Variable} {indices : List Expr} (opens : v.Opens base indices)
    (h : m.Inside p v) : m.Inside (0 :: p) base := by
  obtain ⟨chain, only⟩ := h
  rw [opens.chainPlaces] at chain only
  refine ⟨fun q hq => chain (List.mem_cons_of_mem _ hq), fun q hq below => ?_⟩
  have above : p <:+ q := (List.suffix_cons 0 p).trans below
  rcases List.mem_cons.1 (only q hq above) with rfl | found
  · exact absurd below.length_le (by simp)
  · exact found

theorem Inside.fresh {v base : Variable} {indices : List Expr} (opens : v.Opens base indices)
    (h : m.Inside p v) {j : Nat} (hj : j ≠ 0) : m.Fresh (j :: p) := by
  intro q hq below
  have above : p <:+ q := (List.suffix_cons j p).trans below
  have found := h.only q hq above
  rw [opens.chainPlaces] at found
  rcases List.mem_cons.1 found with rfl | found
  · exact absurd below.length_le (by simp)
  · exact not_suffix_of_ne (Variable.suffix_of_mem_chainPlaces found) hj.symm below

/-- The base of an access has been met with the access. -/
theorem Silent.base {v : Variable} (h : Silent v) (inside : m.Inside p v) :
    m.Reports p [(p, .variable v)] v.innerAccesses := by
  have known : p ∈ m.covered := by
    apply inside.chain
    cases v <;> exact List.mem_cons_self
  have skipped : m.meet (p, .variable v) = m := if_pos known
  have below := h m p inside
  constructor
  · rw [run_singleton, skipped]
    exact below.found
  · rw [run_singleton, skipped]
    exact below.covered

theorem silent_of_opens {v base : Variable} {indices : List Expr} (opens : v.Opens base indices)
    (known : Silent base)
    (each : ∀ x ∈ indices, ∀ m p, Fresh m p → Reports m p [(p, x)] x.accesses) : Silent v := by
  intro m p inside
  have first := known.base (inside.opened opens)
  rw [opens.parts, opens.innerAccesses]
  exact first.above.append (reports_placeFrom each fun j hj =>
    first.fresh (by omega) (inside.fresh opens (by omega)))

theorem Fresh.not_mem (h : m.Fresh p) : p ∉ m.covered :=
  fun known => h p known (List.suffix_refl p)

/-- An access that is met covers its chain. -/
theorem meet_opens {v base : Variable} {indices : List Expr} (opens : v.Opens base indices)
    (h : m.Fresh p) : m.meet (p, .variable v) =
      ⟨m.covered ++ v.chainPlaces p, m.found ++ v.ownAccess⟩ := by
  rw [meet, if_neg h.not_mem]
  cases opens <;> rfl

theorem reports_of_opens {v base : Variable} {indices : List Expr} (opens : v.Opens base indices)
    (silent : Silent v) (h : m.Fresh p) :
    m.Reports p [(p, .variable v)] (v.ownAccess ++ v.innerAccesses) := by
  have inside : Inside ⟨m.covered ++ v.chainPlaces p, m.found ++ v.ownAccess⟩ p v := by
    refine ⟨List.subset_append_right _ _, fun q hq below => ?_⟩
    rcases List.mem_append.1 hq with hq | hq
    · exact absurd below (h q hq)
    · exact hq
  have parts := silent _ p inside
  constructor
  · rw [run_singleton, meet_opens opens h]
    exact parts.found.trans (List.append_assoc _ _ _)
  · intro q hq
    rw [run_singleton, meet_opens opens h] at hq
    rcases parts.covered q hq with hq | below
    · exact (List.mem_append.1 hq).imp_right Variable.suffix_of_mem_chainPlaces
    · exact .inr below

/-- A variable without accesses is reported if it has a name. -/
theorem reports_of_plain {v : Variable} (plain : v.parts = []) (h : m.Fresh p) :
    m.Reports p [(p, .variable v)] v.ownAccess := by
  have met : (m.run [(p, .variable v)]) = ⟨m.covered, m.found ++ v.ownAccess⟩ := by
    rw [run_singleton, meet, if_neg h.not_mem]
    cases v with
    | named => exact run_nil _
    | address => exact (run_nil _).trans (by rw [Variable.ownAccess, Variable.root?, List.append_nil])
    | member | element | deref => exact absurd plain (List.cons_ne_nil _ _)
  constructor
  · rw [met]
  · rw [met]
    exact fun q hq => .inl hq

/-- What is passed on from the parts of an expression: it reports what a recursion lists if nothing of it
has been met, and what is in its indices if it belongs to a chain. -/
structure Told (e : Expr) : Prop where
  fresh : ∀ m p, Fresh m p → Reports m p [(p, e)] e.accesses
  silent : ∀ v, e = .variable v → Silent v

theorem told_variable {v : Variable} (parts : ∀ part ∈ v.parts, Told part) :
    Told (.variable v) := by
  rcases v.plain_or_opens with ⟨plain, nothing⟩ | ⟨base, indices, opens⟩
  · refine ⟨fun m p fresh => ?_, fun _ eq m p _ => ?_⟩
    · rw [Expr.accesses, nothing, List.append_nil]
      exact reports_of_plain plain fresh
    · obtain rfl := Expr.variable.inj eq
      rw [plain, nothing]
      exact reports_nil
  · rw [opens.parts] at parts
    have silent : Silent v :=
      silent_of_opens opens ((parts _ List.mem_cons_self).silent base rfl)
        fun x hx => (parts x (List.mem_cons_of_mem _ hx)).fresh
    exact ⟨fun m p fresh => reports_of_opens opens silent fresh,
      fun _ eq => Expr.variable.inj eq ▸ silent⟩

theorem told_other {e : Expr} (other : e.isVariable = false) (parts : ∀ part ∈ e.parts, Told part) :
    Told e := by
  refine ⟨fun m p fresh => ?_, fun v eq => ?_⟩
  · have passed : m.meet (p, e) = m := by
      rw [meet, if_neg fresh.not_mem]
      cases e with
      | «variable» => exact absurd other Bool.true_eq_false.mp
      | _ => rfl
    have below := reports_placeFrom (m := m) (k := 0) (fun x hx => (parts x hx).fresh)
      fun j _ => fresh.below (k := j)
    rw [Expr.accesses_eq other]
    constructor
    · rw [run_singleton, passed]
      exact below.found
    · rw [run_singleton, passed]
      exact below.covered
  · rw [eq] at other
    exact absurd other Bool.true_eq_false.mp

theorem told (e : Expr) : Told e := by
  refine Expr.anatomy.induction (P := Told) (fun e parts => ?_) e
  cases e with
  | «variable» v => exact told_variable parts
  | _ => exact told_other rfl parts

end Expr.Met

/-- A walk reports what a recursion over the expression lists. -/
theorem Expr.mentions_eq (e : Expr) : e.mentions = e.accesses :=
  ((Expr.Met.told e).fresh {} [] fun _ hq => absurd hq List.not_mem_nil).found

/-! ### Chains of accesses -/

namespace Expr

/-- The node at a place in an expression. -/
def nodeAt (e : Expr) (p : Place) : Option Expr :=
  Expr.anatomy.at? e p

/-- From the place `q` down, each node is the base of the access before. -/
inductive Chain (e : Expr) (q : Place) : Place → Prop
  | here : Chain e q q
  | base {p : Place} {v : Variable} (above : Chain e q p) (at_p : e.nodeAt p = some (.variable v))
      (access : v.base?.isSome) : Chain e q (0 :: p)

/-- The variable without accesses. -/
def isNamed : Expr → Bool
  | .variable (.named _ _ _) => true
  | _ => false

/-- The names in an expression, in the order of a walk, with their places. -/
def namesAt (e : Expr) : List (Place × Expr) :=
  (Expr.anatomy.placed.walk [([], e)]).filter fun x => x.2.isNamed

/-- A name at a place is the root of a chain of accesses, and of no longer one. -/
structure RootOf (e : Expr) (x : Place × Expr) (m : String × Variable) : Prop where
  node : e.nodeAt x.1 = some x.2
  name : ∃ s style, x.2 = .variable (.named s m.1 style)
  chain : ∃ q, e.nodeAt q = some (.variable m.2) ∧ e.Chain q x.1 ∧
    ∀ q', e.Chain q' x.1 → q.length ≤ q'.length

variable {e : Expr} {p q : Place} {v : Variable}

theorem Chain.length_le (h : e.Chain q p) : q.length ≤ p.length := by
  induction h with
  | here => exact Nat.le_refl _
  | base _ _ _ ih => exact Nat.le_succ_of_le ih

/-- No access has the node at the place as its base. -/
def Top (e : Expr) (q : Place) : Prop :=
  ∀ p v, q = 0 :: p → e.nodeAt p = some (.variable v) → v.base? = none

/-- A chain from the top is the longest one. -/
theorem Chain.longest (h : e.Chain q p) (top : e.Top q) {q' : Place} (h' : e.Chain q' p) :
    q.length ≤ q'.length := by
  induction h generalizing q' with
  | here =>
    cases h' with
    | here => exact Nat.le_refl _
    | base above at_p access =>
      rw [top _ _ rfl at_p] at access
      exact absurd access Bool.false_ne_true
  | base above _ _ ih =>
    cases h' with
    | here => exact Nat.le_succ_of_le above.length_le
    | base above' _ _ => exact ih above'

theorem nodeAt_cons {x : Expr} (h : e.nodeAt p = some x) (i : Nat) :
    e.nodeAt (i :: p) = x.parts[i]? := by
  rw [nodeAt, Anatomy.at?]
  exact congrArg (Option.bind · _) h

theorem top_cons {j : Nat} (h : j ≠ 0) : e.Top (j :: p) :=
  fun _ _ eq _ => absurd (List.cons.inj eq).1 h

theorem top_of_other {x : Expr} (h : e.nodeAt p = some x) (other : x.isVariable = false) (j : Nat) :
    e.Top (j :: p) := by
  intro p' v eq at_p
  obtain ⟨-, rfl⟩ := List.cons.inj eq
  obtain rfl := Option.some.inj (h.symm.trans at_p)
  exact absurd other Bool.true_eq_false.mp

/-! ### Names and their chains -/

/-- The names that a walk comes by are roots, one after another, and each with its longest chain. -/
def Roots (e : Expr) (stack : List (Place × Expr)) (ms : List (String × Variable)) : Prop :=
  List.Forall₂ e.RootOf ((Expr.anatomy.placed.walk stack).filter fun x => x.2.isNamed) ms

variable {stack waiting : List (Place × Expr)} {ms ns : List (String × Variable)} {k : Nat}

theorem roots_nil : e.Roots [] [] := by
  rw [Roots, Anatomy.walk_nil]
  exact .nil

theorem Roots.append (h : e.Roots stack ms) (h' : e.Roots waiting ns) :
    e.Roots (stack ++ waiting) (ms ++ ns) := by
  rw [Roots, Anatomy.walk_append, List.filter_append]
  exact List.rel_append h h'

/-- A node that is no name has the names of its parts. -/
theorem Roots.parts {x : Expr} (h : e.Roots (placeFrom p 0 x.parts) ms) (other : x.isNamed = false) :
    e.Roots [(p, x)] ms := by
  rw [Roots, Anatomy.walk_singleton, List.filter_cons, if_neg (Bool.eq_false_iff.1 other)]
  exact h

/-- A name is the root of the chain down to it. -/
theorem roots_named {s : Span} {name : String} {style : NameStyle} {w : Variable}
    (at_p : e.nodeAt p = some (.variable (.named s name style)))
    (at_q : e.nodeAt q = some (.variable w)) (chain : e.Chain q p) (top : e.Top q)
    (root : w.root? = some name) : e.Roots [(p, .variable (.named s name style))] w.ownAccess := by
  have told : e.RootOf (p, .variable (.named s name style)) (name, w) :=
    ⟨at_p, ⟨s, style, rfl⟩, q, at_q, chain, fun _ other => chain.longest top other⟩
  rw [Roots, Anatomy.walk_singleton, List.filter_cons_of_pos rfl, Variable.ownAccess, root]
  refine .cons told ?_
  show e.Roots [] []
  exact roots_nil

theorem roots_placeFrom {xs : List Expr}
    (each : ∀ x ∈ xs, ∀ p, e.nodeAt p = some x → e.Top p → e.Roots [(p, x)] x.accesses)
    (nodes : ∀ i, e.nodeAt ((k + i) :: p) = xs[i]?) (top : ∀ j ≥ k, e.Top (j :: p)) :
    e.Roots (placeFrom p k xs) (xs.flatMap Expr.accesses) := by
  induction xs generalizing k with
  | nil => exact roots_nil
  | cons x xs ih =>
    have first := each x List.mem_cons_self (k :: p) (nodes 0) (top k (Nat.le_refl k))
    have rest := ih (k := k + 1) (fun y hy => each y (List.mem_cons_of_mem _ hy))
      (fun i => by rw [Nat.add_right_comm]; exact nodes (i + 1)) fun j hj => top j (by omega)
    exact first.append rest

/-- What is passed on from the parts of an expression: its names are the roots of what a recursion
lists, also where the expression continues a chain of accesses. -/
structure Rooted (e x : Expr) : Prop where
  top : ∀ p, e.nodeAt p = some x → e.Top p → e.Roots [(p, x)] x.accesses
  chain : ∀ v, x = .variable v → ∀ p q w, e.nodeAt p = some x → e.nodeAt q = some (.variable w) →
    e.Chain q p → e.Top q → w.root? = v.root? → e.Roots [(p, x)] (w.ownAccess ++ v.innerAccesses)

theorem rooted_variable (parts : ∀ part ∈ v.parts, e.Rooted part) : e.Rooted (.variable v) := by
  have chain (p q : Place) (w : Variable) (at_p : e.nodeAt p = some (.variable v))
      (at_q : e.nodeAt q = some (.variable w)) (chain : e.Chain q p) (top : e.Top q)
      (root : w.root? = v.root?) : e.Roots [(p, .variable v)] (w.ownAccess ++ v.innerAccesses) := by
    -- An access is rooted as its base is, with the indices behind it.
    have opened {base : Variable} {indices : List Expr} (opens : v.Opens base indices) :
        e.Roots (placeFrom p 0 v.parts) (w.ownAccess ++ v.innerAccesses) := by
      have nodes (i : Nat) := nodeAt_cons at_p i
      have access : v.base?.isSome := by cases opens <;> rfl
      rw [Expr.parts, opens.parts] at nodes
      rw [opens.parts] at parts
      have first := (parts _ List.mem_cons_self).chain base rfl (0 :: p) q w (nodes 0) at_q
        (chain.base at_p access) top (root.trans opens.root)
      have rest : e.Roots (placeFrom p 1 indices) (indices.flatMap Expr.accesses) := roots_placeFrom
        (fun x hx => (parts x (List.mem_cons_of_mem _ hx)).top)
        (fun i => by rw [Nat.add_comm]; exact nodes (i + 1)) fun j hj => top_cons (by omega)
      rw [opens.parts, opens.innerAccesses, ← List.append_assoc]
      exact first.append rest
    cases v with
    | named s name style =>
      rw [Variable.innerAccesses, List.append_nil]
      exact roots_named at_p at_q chain top root
    | address =>
      rw [Variable.ownAccess, root]
      exact Roots.parts (x := .variable _) roots_nil rfl
    | member => exact Roots.parts (x := .variable _) (opened (.member _ _ _)) rfl
    | element => exact Roots.parts (x := .variable _) (opened (.element _ _ _)) rfl
    | deref => exact Roots.parts (x := .variable _) (opened (.deref _ _)) rfl
  -- An expression that continues no chain is a chain from itself on.
  refine ⟨fun p at_p top => chain p p v at_p at_p .here top rfl, ?_⟩
  rintro _ eq
  obtain rfl := Expr.variable.inj eq
  exact chain

theorem rooted_other {x : Expr} (other : x.isVariable = false)
    (parts : ∀ part ∈ x.parts, e.Rooted part) : e.Rooted x := by
  refine ⟨fun p at_p _ => ?_, fun v eq => ?_⟩
  · have below := roots_placeFrom (k := 0) (fun y hy => (parts y hy).top)
      (fun i => by rw [Nat.zero_add]; exact nodeAt_cons at_p i)
      fun j _ => top_of_other at_p other j
    rw [Expr.accesses_eq other]
    refine below.parts ?_
    cases x with
    | «variable» => exact absurd other Bool.true_eq_false.mp
    | _ => rfl
  · rw [eq] at other
    exact absurd other Bool.true_eq_false.mp

theorem rooted (e x : Expr) : e.Rooted x := by
  refine Expr.anatomy.induction (P := e.Rooted) (fun x parts => ?_) x
  cases x with
  | «variable» v => exact rooted_variable parts
  | _ => exact rooted_other rfl parts

/-- The variables at both ends of a chain have the same root. -/
theorem Chain.root {w : Variable} (h : e.Chain q p) (at_q : e.nodeAt q = some (.variable w))
    (at_p : e.nodeAt p = some (.variable v)) : w.root? = v.root? := by
  induction h generalizing v with
  | here =>
    obtain rfl := Expr.variable.inj (Option.some.inj (at_q.symm.trans at_p))
    rfl
  | @base p u above at_u access ih =>
    rw [ih at_u]
    rw [nodeAt_cons at_u] at at_p
    cases u with
    | named | address => exact absurd access Bool.false_ne_true
    | member | element | deref =>
      obtain rfl := Expr.variable.inj (Option.some.inj at_p)
      rfl

theorem RootOf.root {x : Place × Expr} {m : String × Variable} (h : e.RootOf x m) :
    m.2.root? = some m.1 := by
  obtain ⟨at_p, ⟨s, style, name⟩, q, at_q, chain, -⟩ := h
  rw [name] at at_p
  exact chain.root at_q at_p

/-- The names in an expression are reported in the order of a walk, each once and with the longest chain
of accesses that it is the root of; so no chain is reported that has no name at its root. -/
theorem mentions_roots (e : Expr) :
    e.namesAt.map (·.2) = e.walk.filter isNamed ∧
      List.Forall₂ e.RootOf e.namesAt e.mentions ∧
      ∀ m ∈ e.mentions, m.2.root? = some m.1 := by
  have all : List.Forall₂ e.RootOf e.namesAt e.mentions := by
    rw [mentions_eq]
    exact (rooted e e).top [] rfl fun _ _ eq _ => absurd eq (List.cons_ne_nil _ _).symm
  refine ⟨?_, all, ?_⟩
  · have same : (Expr.anatomy.placed.walk [([], e)]).map (·.2) = e.walk :=
      Expr.anatomy.map_snd_walk_placed [([], e)]
    rw [← same, List.filter_map]
    rfl
  · generalize e.namesAt = xs at all
    generalize e.mentions = ms at all
    induction all with
    | nil => exact fun _ hm => absurd hm List.not_mem_nil
    | cons first _ rest => exact List.forall_mem_cons.2 ⟨first.root, rest⟩

end Expr

end Plc

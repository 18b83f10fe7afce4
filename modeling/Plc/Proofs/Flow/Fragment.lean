/-
Fragments inside a graph.

A fragment `Fits` at `n` when its blocks are numbered from `n` on: control enters at
`n`, and every edge starts in one of its blocks.  It `Sits` in a graph when the graph
has its blocks there and lets control go from them only as the fragment says.

* `fits_ofStmt`, `fits_ofList` — fragments of statements fit where they are built;
* `Sits.andThen_left`, `Sits.andThen_right`, `Sits.orElse_left`, … — the parts of a
  fragment sit where it sits.
-/
import Plc.Proofs.Flow.Run

namespace Plc.Flow

/-! ### Edges between blocks -/

/-- An edge of the list leads from one block to the other. -/
def Joins (es : List Edge) (m m' : Nat) : Prop :=
  ∃ e ∈ es, e.source = m ∧ e.target = m'

@[simp] theorem joins_nil (m m' : Nat) : ¬Joins [] m m' := by
  simp [Joins]

@[simp] theorem joins_cons (e : Edge) (es : List Edge) (m m' : Nat) :
    Joins (e :: es) m m' ↔ (e.source = m ∧ e.target = m') ∨ Joins es m m' := by
  simp [Joins]

@[simp] theorem joins_append (es fs : List Edge) (m m' : Nat) :
    Joins (es ++ fs) m m' ↔ Joins es m m' ∨ Joins fs m m' := by
  simp [Joins, or_and_right, exists_or]

@[simp] theorem joins_map (ms : List Nat) (k : Nat) (kind : EdgeKind) (m m' : Nat) :
    Joins (ms.map (Edge.mk · k kind)) m m' ↔ m ∈ ms ∧ m' = k := by
  simp only [Joins, List.mem_map, exists_exists_and_eq_and]
  constructor
  · rintro ⟨x, hx, rfl, rfl⟩
    exact ⟨hx, rfl⟩
  · rintro ⟨hm, rfl⟩
    exact ⟨m, hm, rfl, rfl⟩

theorem Graph.mem_successors {g : Graph} {m m' : Nat} :
    m' ∈ g.successors m ↔ Joins g.edges m m' := by
  simp [Graph.successors, Joins, and_assoc]

/-! ### Fragments fit where they are built -/

namespace Fragment

/-- The block is one of the fragment's, when the fragment begins at `n`. -/
def Holds (f : Fragment) (n m : Nat) : Prop :=
  n ≤ m ∧ m < n + f.blocks.length

/-- The blocks of the fragment are numbered from `n` on. -/
structure Fits (f : Fragment) (n : Nat) : Prop where
  first : f.first = n
  nonempty : 0 < f.blocks.length
  edges : ∀ m m', Joins f.edges m m' → f.Holds n m
  exits : ∀ m ∈ f.exits, f.Holds n m
  leaves : ∀ m ∈ f.leaves, f.Holds n m

variable {a b : Fragment} {n : Nat}

theorem holds_of_pos (h : 0 < a.blocks.length) : a.Holds n n :=
  ⟨Nat.le_refl n, by omega⟩

theorem fits_single (n : Nat) (x : Block) : (single n x).Fits n := by
  constructor <;> simp [single, Holds]

theorem fits_jump {n : Nat} {x : Block} {e : Option Edge} (h : ∀ y ∈ e, y.source = n) :
    (jump n x e).Fits n := by
  cases e with
  | none => constructor <;> simp [jump, Holds]
  | some y =>
    have hy : y.source = n := h y rfl
    constructor <;> simp [jump, Holds, hy]

theorem fits_decision (n : Nat) (x : Block) : (decision n x).Fits n := by
  constructor <;> simp [decision, Holds]

theorem Fits.andThen (ha : a.Fits n) (hb : b.Fits (n + a.blocks.length)) :
    (a.andThen b).Fits n := by
  obtain ⟨ha₁, ha₂, ha₃, ha₄, ha₅⟩ := ha
  obtain ⟨hb₁, hb₂, hb₃, hb₄, hb₅⟩ := hb
  constructor
  · exact ha₁
  · simp only [Fragment.andThen, List.length_append]
    omega
  all_goals simp only [Fragment.andThen, Holds, List.length_append, joins_append, joins_map, List.mem_append] at *
  all_goals grind

theorem Fits.orElse {source : Nat} {e : EdgeKind} (ha : a.Fits n)
    (hb : b.Fits (n + a.blocks.length)) (hs : a.Holds n source) :
    (a.orElse source e b).Fits n := by
  obtain ⟨ha₁, ha₂, ha₃, ha₄, ha₅⟩ := ha
  obtain ⟨hb₁, hb₂, hb₃, hb₄, hb₅⟩ := hb
  constructor
  · exact ha₁
  · simp only [Fragment.orElse, List.length_append]
    omega
  all_goals
    simp only [Fragment.orElse, Holds, List.length_append, joins_append, joins_cons, joins_nil,
      or_false, List.mem_append] at *
  all_goals grind

theorem Fits.addTest {source : Nat} {x : Block} (ha : a.Fits n) (hs : a.Holds n source) :
    (a.addTest source (n + a.blocks.length) x).Fits n := by
  obtain ⟨ha₁, ha₂, ha₃, ha₄, ha₅⟩ := ha
  constructor
  · exact ha₁
  · simp [Fragment.addTest]
  all_goals simp only [Fragment.addTest, Holds, List.length_append, List.length_singleton,
    joins_append, joins_cons, joins_nil, or_false] at *
  all_goals grind

/-- A further test, with what is done when it holds. -/
theorem Fits.elseTest {source : Nat} {x : Block} {e : EdgeKind} (ha : a.Fits n)
    (hs : a.Holds n source) (hb : b.Fits (n + a.blocks.length + 1)) :
    ((a.addTest source (n + a.blocks.length) x).orElse (n + a.blocks.length) e b).Fits n ∧
      ((a.addTest source (n + a.blocks.length) x).orElse (n + a.blocks.length) e b).Holds n
        (n + a.blocks.length) := by
  constructor
  · refine (ha.addTest hs).orElse ?_ ?_
    · simpa [Fragment.addTest, Nat.add_assoc] using hb
    · simp [Fragment.addTest, Holds]
  · simp [Fragment.addTest, Fragment.orElse, Holds]

theorem Fits.fallFrom {m : Nat} (ha : a.Fits n) (hm : a.Holds n m) : (a.fallFrom m).Fits n := by
  obtain ⟨ha₁, ha₂, ha₃, ha₄, ha₅⟩ := ha
  constructor
  · exact ha₁
  · exact ha₂
  all_goals simp only [Fragment.fallFrom, Holds] at *
  all_goals grind

theorem Fits.testFirst {x y : Block} (ha : a.Fits (n + 2)) : (testFirst n x y a).Fits n := by
  obtain ⟨ha₁, ha₂, ha₃, ha₄, ha₅⟩ := ha
  constructor
  · rfl
  · simp [Fragment.testFirst]
  all_goals simp only [Fragment.testFirst, Holds, List.length_cons, joins_append, joins_cons,
    joins_map, joins_nil, or_false] at *
  all_goals grind

theorem Fits.testLast {x y z : Block} (ha : a.Fits (n + 3)) : (testLast n x y z a).Fits n := by
  obtain ⟨ha₁, ha₂, ha₃, ha₄, ha₅⟩ := ha
  constructor
  · rfl
  · simp [Fragment.testLast]
  all_goals simp only [Fragment.testLast, Holds, List.length_cons, joins_append, joins_cons,
    joins_map, joins_nil, or_false] at *
  all_goals grind

/-- The last choice of the decision at `source`; without one, control falls from there. -/
def elseDo (loop : Option Loop) (n source : Nat) (done : Fragment) : Option (List Stmt) → Fragment
  | some ss => done.orElse source .whenFalse (ofList loop (n + done.blocks.length) ss)
  | none => done.fallFrom source

theorem ofStmt_ifThen (loop : Option Loop) (n : Nat) (p q : Span) (c : Expr) (body : List Stmt)
    (elsifs : List IfBranch) (otherwise : Option (List Stmt)) :
    ofStmt loop n (.ifThen p (.mk q c body) elsifs otherwise) =
      let known := ofElsifs loop n n ((decision n
        ⟨.branch, some (.ifThen p (.mk q c body) elsifs otherwise), q⟩).orElse n .whenTrue
          (ofList loop (n + 1) body)) elsifs
      elseDo loop n known.2 known.1 otherwise := by
  rw [ofStmt]
  cases otherwise <;> rfl

theorem ofStmt_caseOf (loop : Option Loop) (n : Nat) (p : Span) (c : Expr)
    (branches : List CaseBranch) (otherwise : Option (List Stmt)) :
    ofStmt loop n (.caseOf p c branches otherwise) =
      elseDo loop n n (ofBranches loop n
        (decision n ⟨.branch, some (.caseOf p c branches otherwise), p⟩) branches) otherwise := by
  cases otherwise <;> rw [ofStmt] <;> rfl

variable {loop : Option Loop}

mutual

theorem fits_ofStmt (loop : Option Loop) (n : Nat) : ∀ s, (ofStmt loop n s).Fits n
  -- The recursion follows the building of the fragment, by the lemma for each way to build.
  | .ifThen p (.mk q c body) elsifs otherwise => by
    rw [ofStmt_ifThen]
    have test := fits_decision n ⟨.branch, some (.ifThen p (.mk q c body) elsifs otherwise), q⟩
    have first := test.orElse (e := .whenTrue) (fits_ofList loop (n + 1) body)
      (holds_of_pos test.nonempty)
    obtain ⟨fits, holds⟩ := fits_ofElsifs loop n n _ elsifs first (holds_of_pos first.nonempty)
    cases otherwise with
    | some ss => exact fits.orElse (fits_ofList loop _ ss) holds
    | none => exact fits.fallFrom holds
  | .caseOf p c branches otherwise => by
    rw [ofStmt_caseOf]
    have fits := fits_ofBranches loop n _ branches
      (fits_decision n ⟨.branch, some (.caseOf p c branches otherwise), p⟩)
    cases otherwise with
    | some ss => exact fits.orElse (fits_ofList loop _ ss) (holds_of_pos fits.nonempty)
    | none => exact fits.fallFrom (holds_of_pos fits.nonempty)
  | .forLoop _ _ _ _ _ body => by
    rw [ofStmt]
    exact (fits_ofList _ (n + 2) body).testFirst
  | .whileLoop _ _ body => by
    rw [ofStmt]
    exact (fits_ofList _ (n + 2) body).testFirst
  | .repeatLoop _ body _ => by
    rw [ofStmt]
    exact (fits_ofList _ (n + 3) body).testLast
  | .region _ _ [] => fits_single n _
  | .region _ _ (first :: rest) => by
    rw [ofStmt]
    exact fits_ofTail loop n _ rest (fits_ofStmt loop n first)
  | .leave _ _ => fits_jump (by simp)
  | .exitLoop _ => fits_jump (by simp)
  | .nextPass _ => fits_jump (by simp)
  | .assignment .. | .call .. | .invoke .. | .empty _ | .goto .. | .label .. => fits_single n _

theorem fits_ofList (loop : Option Loop) (n : Nat) : ∀ ss, (ofList loop n ss).Fits n
  | [] => fits_single n _
  | s :: ss => by
    rw [ofList]
    exact fits_ofTail loop n _ ss (fits_ofStmt loop n s)

theorem fits_ofTail (loop : Option Loop) (n : Nat) (done : Fragment) :
    ∀ ss, done.Fits n → (ofTail loop n done ss).Fits n
  | [], h => h
  | s :: ss, h => by
    rw [ofTail]
    exact fits_ofTail loop n _ ss (h.andThen (fits_ofStmt loop _ s))

theorem fits_ofElsifs (loop : Option Loop) (n source : Nat) (done : Fragment) :
    ∀ bs, done.Fits n → done.Holds n source →
      (ofElsifs loop n source done bs).1.Fits n ∧
        (ofElsifs loop n source done bs).1.Holds n (ofElsifs loop n source done bs).2
  | [], h, hs => ⟨h, hs⟩
  | .mk p c body :: bs, h, hs => by
    rw [ofElsifs]
    -- The block that decides comes right after what is done, and the body after that block.
    obtain ⟨fits, holds⟩ := h.elseTest (x := { kind := .branch, span := p }) (e := .whenTrue) hs
      (fits_ofList loop (n + done.blocks.length + 1) body)
    exact fits_ofElsifs loop n _ _ bs fits holds

theorem fits_ofBranches (loop : Option Loop) (n : Nat) (done : Fragment) :
    ∀ bs, done.Fits n → (ofBranches loop n done bs).Fits n
  | [], h => h
  | .mk _ _ body :: bs, h => by
    rw [ofBranches]
    exact fits_ofBranches loop n _ bs
      (h.orElse (fits_ofList loop _ body) (holds_of_pos h.nonempty))

end

/-! ### Fragments that sit in a graph -/

/-- The graph has the fragment's blocks from `n` on, and control goes from them along the
fragment's edges, from its exits to `k`, from its leaves to the end, and as `more` says. -/
structure Sits (f : Fragment) (g : Graph) (n k : Nat) (more : Nat → Nat → Prop) : Prop where
  block : ∀ i < f.blocks.length, g.blocks[n + i]? = f.blocks[i]?
  next : ∀ m m', f.Holds n m → (m' ∈ g.successors m ↔
    Joins f.edges m m' ∨ (m ∈ f.exits ∧ m' = k) ∨
      (m ∈ f.leaves ∧ m' = g.exit) ∨ more m m')

/-- Control goes nowhere else. -/
def nowhere : Nat → Nat → Prop := fun _ _ => False

variable {g : Graph} {k : Nat} {more : Nat → Nat → Prop}

theorem Sits.andThen_left (h : (a.andThen b).Sits g n k nowhere) (hb : b.Fits (n + a.blocks.length)) :
    a.Sits g n b.first nowhere := by
  obtain ⟨block, next⟩ := h
  obtain ⟨-, -, hb, hbe, hbl⟩ := hb
  simp only [Fragment.andThen, Holds, List.length_append, joins_append, joins_map,
    List.mem_append] at block next hb hbe hbl
  refine ⟨fun i hi => ?_, fun m m' ⟨low, high⟩ => ?_⟩
  · rw [block i (by omega), List.getElem?_append_left hi]
  · rw [next m m' ⟨low, by omega⟩]
    grind

theorem Sits.andThen_right (h : (a.andThen b).Sits g n k nowhere) (ha : a.Fits n) :
    b.Sits g (n + a.blocks.length) k nowhere := by
  obtain ⟨block, next⟩ := h
  obtain ⟨-, -, ha, hae, hal⟩ := ha
  simp only [Fragment.andThen, Holds, List.length_append, joins_append, joins_map,
    List.mem_append] at block next ha hae hal
  refine ⟨fun i hi => ?_, fun m m' ⟨low, high⟩ => ?_⟩
  · rw [Nat.add_assoc, block _ (by omega), List.getElem?_append_right (by omega)]
    simp
  · rw [next m m' ⟨by omega, by omega⟩]
    grind

theorem Sits.orElse_left {source : Nat} {kind : EdgeKind}
    (h : (a.orElse source kind b).Sits g n k more) (hb : b.Fits (n + a.blocks.length)) :
    a.Sits g n k fun m m' => more m m' ∨ (m = source ∧ m' = b.first) := by
  obtain ⟨block, next⟩ := h
  obtain ⟨-, -, hb, hbe, hbl⟩ := hb
  simp only [Fragment.orElse, Holds, List.length_append, joins_append, joins_cons, joins_nil,
    or_false, List.mem_append] at block next hb hbe hbl
  refine ⟨fun i hi => ?_, fun m m' ⟨low, high⟩ => ?_⟩
  · rw [block i (by omega), List.getElem?_append_left hi]
  · rw [next m m' ⟨low, by omega⟩]
    grind

theorem Sits.orElse_right {source : Nat} {kind : EdgeKind}
    (h : (a.orElse source kind b).Sits g n k more) (ha : a.Fits n) (hs : a.Holds n source)
    (hm : ∀ m m', more m m' → a.Holds n m) : b.Sits g (n + a.blocks.length) k nowhere := by
  obtain ⟨block, next⟩ := h
  obtain ⟨-, -, ha, hae, hal⟩ := ha
  simp only [Fragment.orElse, Holds, List.length_append, joins_append, joins_cons, joins_nil,
    or_false, List.mem_append] at block next ha hae hal hs hm
  refine ⟨fun i hi => ?_, fun m m' ⟨low, high⟩ => ?_⟩
  · rw [Nat.add_assoc, block _ (by omega), List.getElem?_append_right (by omega)]
    simp
  · rw [next m m' ⟨by omega, by omega⟩]
    grind [nowhere]

theorem Sits.fallFrom {m : Nat} (h : (a.fallFrom m).Sits g n k more) :
    a.Sits g n k fun m₁ m' => more m₁ m' ∨ (m₁ = m ∧ m' = k) := by
  obtain ⟨block, next⟩ := h
  refine ⟨block, fun m₁ m' hm => ?_⟩
  rw [next m₁ m' hm]
  grind [Fragment.fallFrom]

theorem Sits.addTest_left {source : Nat} {x : Block}
    (h : (a.addTest source (n + a.blocks.length) x).Sits g n k more) :
    a.Sits g n k fun m m' => more m m' ∨ (m = source ∧ m' = n + a.blocks.length) := by
  obtain ⟨block, next⟩ := h
  simp only [Fragment.addTest, Holds, List.length_append, List.length_singleton, joins_append,
    joins_cons, joins_nil, or_false] at block next
  refine ⟨fun i hi => ?_, fun m m' ⟨low, high⟩ => ?_⟩
  · rw [block i (by omega), List.getElem?_append_left hi]
  · rw [next m m' ⟨low, by omega⟩]
    grind

theorem Sits.congr {f : Fragment} {more' : Nat → Nat → Prop} (h : f.Sits g n k more)
    (same : ∀ m m', f.Holds n m → (more m m' ↔ more' m m')) : f.Sits g n k more' := by
  refine ⟨h.block, fun m m' hm => ?_⟩
  rw [h.next m m' hm, same m m' hm]

/-- What a block of the fragment holds in the graph. -/
theorem Sits.heldAt {f : Fragment} (h : f.Sits g n k more) {i : Nat} (hi : i < f.blocks.length) :
    g.heldAt (n + i) = (f.blocks[i]?.bind Block.statement).toList := by
  rw [Graph.heldAt, h.block i hi]

theorem Sits.single {x : Block} (h : (single n x).Sits g n k nowhere) :
    g.heldAt n = x.statement.toList ∧ ∀ m', m' ∈ g.successors n ↔ m' = k := by
  constructor
  · simpa [Fragment.single] using h.heldAt (i := 0) (by simp [Fragment.single])
  · intro m'
    rw [h.next n m' (holds_of_pos (by simp [Fragment.single]))]
    simp [Fragment.single, nowhere]

theorem Sits.jump {x : Block} {e : Option Edge} (h : (jump n x e).Sits g n k nowhere)
    (he : ∀ y ∈ e, y.source = n) :
    g.heldAt n = x.statement.toList ∧
      ∀ m', m' ∈ g.successors n ↔ m' = (e.map Edge.target).getD g.exit := by
  cases e with
  | none =>
    constructor
    · simpa [Fragment.jump] using h.heldAt (i := 0) (by simp [Fragment.jump])
    · intro m'
      rw [h.next n m' (holds_of_pos (by simp [Fragment.jump]))]
      simp [Fragment.jump, nowhere]
  | some y =>
    have hy : y.source = n := he y rfl
    constructor
    · simpa [Fragment.jump] using h.heldAt (i := 0) (by simp [Fragment.jump])
    · intro m'
      rw [h.next n m' (holds_of_pos (by simp [Fragment.jump]))]
      simp [Fragment.jump, nowhere, hy, eq_comm]

theorem Sits.decision {x : Block} (h : (decision n x).Sits g n k more) :
    g.heldAt n = x.statement.toList ∧ ∀ m', m' ∈ g.successors n ↔ more n m' := by
  constructor
  · simpa [Fragment.decision] using h.heldAt (i := 0) (by simp [Fragment.decision])
  · intro m'
    rw [h.next n m' (holds_of_pos (by simp [Fragment.decision]))]
    simp [Fragment.decision]

theorem Sits.addTest_right {source : Nat} {x : Block}
    (h : (a.addTest source (n + a.blocks.length) x).Sits g n k more) (ha : a.Fits n)
    (hs : a.Holds n source) :
    g.heldAt (n + a.blocks.length) = x.statement.toList ∧
      ∀ m', m' ∈ g.successors (n + a.blocks.length) ↔ more (n + a.blocks.length) m' := by
  constructor
  · simpa [Fragment.addTest] using h.heldAt (i := a.blocks.length) (by simp [Fragment.addTest])
  · intro m'
    rw [h.next _ m' ⟨by omega, by simp [Fragment.addTest]⟩]
    -- The new block has no edges of its own yet: all others start inside of what was done.
    have inside {m : Nat} (hm : a.Holds n m) : m ≠ n + a.blocks.length := by
      have := hm.2
      omega
    simp only [Fragment.addTest, joins_append, joins_cons, joins_nil, or_false]
    constructor
    · rintro ((hj | ⟨hj, -⟩) | ⟨hj, -⟩ | ⟨hj, -⟩ | hj)
      · exact absurd rfl (inside (ha.edges _ _ hj))
      · exact absurd hj (inside hs)
      · exact absurd rfl (inside (ha.exits _ hj))
      · exact absurd rfl (inside (ha.leaves _ hj))
      · exact hj
    · intro hj
      exact .inr (.inr (.inr hj))

theorem Sits.elseTest {source : Nat} {x : Block} {kind : EdgeKind} {more : Nat → Prop}
    (h : ((a.addTest source (n + a.blocks.length) x).orElse (n + a.blocks.length) kind b).Sits g n k
      fun m m' => m = n + a.blocks.length ∧ more m')
    (ha : a.Fits n) (hs : a.Holds n source) (hb : b.Fits (n + a.blocks.length + 1)) :
    a.Sits g n k (fun m m' => m = source ∧ m' = n + a.blocks.length) ∧
      (g.heldAt (n + a.blocks.length) = x.statement.toList ∧
        ∀ m', m' ∈ g.successors (n + a.blocks.length) ↔ more m' ∨ m' = n + a.blocks.length + 1) ∧
      b.Sits g (n + a.blocks.length + 1) k nowhere := by
  have holds : (a.addTest source (n + a.blocks.length) x).Holds n (n + a.blocks.length) := by
    simp [Fragment.addTest, Holds]
  have length : n + (a.addTest source (n + a.blocks.length) x).blocks.length =
      n + a.blocks.length + 1 := by
    simp [Fragment.addTest, Nat.add_assoc]
  have first : b.first = n + a.blocks.length + 1 := hb.first
  rw [← length] at hb
  -- The body is taken off first, and then the test.
  have tested := h.orElse_left hb
  obtain ⟨held, next⟩ := tested.addTest_right ha hs
  refine ⟨tested.addTest_left.congr fun m m' hm => ?_, ⟨held, fun m' => ?_⟩, ?_⟩
  · have inside : m ≠ n + a.blocks.length := by
      have := hm.2
      omega
    simp [inside]
  · simp [next, first]
  · rw [← length]
    exact h.orElse_right (ha.addTest hs) holds fun m m' hm => hm.1 ▸ holds

theorem Sits.testFirst {x y : Block} (h : (testFirst n x y a).Sits g n k nowhere)
    (ha : a.Fits (n + 2)) :
    (g.heldAt n = x.statement.toList ∧ ∀ m', m' ∈ g.successors n ↔ m' = n + 1 ∨ m' = n + 2) ∧
      (g.heldAt (n + 1) = y.statement.toList ∧ ∀ m', m' ∈ g.successors (n + 1) ↔ m' = k) ∧
      a.Sits g (n + 2) n nowhere := by
  have held (i : Nat) (hi : i < a.blocks.length + 2) :=
    h.heldAt (i := i) hi
  obtain ⟨block, next⟩ := h
  -- Every edge of the body starts inside of it, so those of the first two blocks are the ones that
  -- were added.
  obtain ⟨first, -, edges, exits, leaves⟩ := ha
  simp only [Fragment.testFirst, Holds, List.length_cons, joins_append, joins_cons, joins_map,
    joins_nil, or_false, first, List.mem_singleton, nowhere] at block next edges exits leaves
  refine ⟨⟨?_, fun m' => ?_⟩, ⟨?_, fun m' => ?_⟩, ⟨fun i hi => ?_, fun m m' ⟨low, high⟩ => ?_⟩⟩
  · simpa [Fragment.testFirst] using held 0 (by omega)
  · rw [next n m' ⟨by omega, by omega⟩]
    grind
  · simpa [Fragment.testFirst] using held 1 (by omega)
  · rw [next (n + 1) m' ⟨by omega, by omega⟩]
    grind
  · have shifted := block (i + 2) (by omega)
    rwa [← Nat.add_assoc, Nat.add_right_comm] at shifted
  · rw [next m m' ⟨by omega, by omega⟩]
    grind [nowhere]

theorem Sits.testLast {x y z : Block} (h : (testLast n x y z a).Sits g n k nowhere)
    (ha : a.Fits (n + 3)) :
    (g.heldAt n = x.statement.toList ∧ ∀ m', m' ∈ g.successors n ↔ m' = n + 3) ∧
      (g.heldAt (n + 1) = y.statement.toList ∧
        ∀ m', m' ∈ g.successors (n + 1) ↔ m' = n ∨ m' = n + 2) ∧
      (g.heldAt (n + 2) = z.statement.toList ∧ ∀ m', m' ∈ g.successors (n + 2) ↔ m' = k) ∧
      a.Sits g (n + 3) (n + 1) nowhere := by
  have held (i : Nat) (hi : i < a.blocks.length + 3) :=
    h.heldAt (i := i) hi
  obtain ⟨block, next⟩ := h
  -- As above, with three blocks that are added.
  obtain ⟨first, -, edges, exits, leaves⟩ := ha
  simp only [Fragment.testLast, Holds, List.length_cons, joins_append, joins_cons, joins_map,
    joins_nil, or_false, first, List.mem_singleton, nowhere] at block next edges exits leaves
  refine ⟨⟨?_, fun m' => ?_⟩, ⟨?_, fun m' => ?_⟩, ⟨?_, fun m' => ?_⟩,
    ⟨fun i hi => ?_, fun m m' ⟨low, high⟩ => ?_⟩⟩
  · simpa [Fragment.testLast] using held 0 (by omega)
  · rw [next n m' ⟨by omega, by omega⟩]
    grind
  · simpa [Fragment.testLast] using held 1 (by omega)
  · rw [next (n + 1) m' ⟨by omega, by omega⟩]
    grind
  · simpa [Fragment.testLast] using held 2 (by omega)
  · rw [next (n + 2) m' ⟨by omega, by omega⟩]
    grind
  · have shifted := block (i + 3) (by omega)
    rwa [← Nat.add_assoc, Nat.add_right_comm] at shifted
  · rw [next m m' ⟨by omega, by omega⟩]
    grind [nowhere]

end Fragment

end Plc.Flow

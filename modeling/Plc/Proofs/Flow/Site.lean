/-
Where the statements of a list stand in its graph.

The blocks of a statement and of all statements inside of it are numbered in one piece, and control
comes into that piece from outside at its first block only.  A `Site` is a statement with the number
of its first block; it is dead where its list has been left before it by `RETURN` or `EXIT` and no
label has come since, and then control does not come into it at all.

* `Site.inList` — the sites of a list, those of nested bodies included;
* `Fragment.IsPart` — a fragment stands in another one and is entered at its first block only;
* `Fragment.Splits` — two fragments in turn, each of which is a part;
* `Fragment.Seals` — blocks of a fragment that no edge enters from elsewhere;
* `Fragment.Lodges` — a fragment is that of a site there, and is sealed where the site is dead;
* `lodges_ofList` — the fragment of a list lodges all sites of the list.
-/
import Plc.Proofs.Flow.Drain

namespace Plc

namespace Stmt

/-- Control never goes on from the statement to the next one of its list. -/
def isTerminal : Stmt → Bool
  | .leave _ _ | .exitLoop _ => true
  | _ => false

/-- The statement can be jumped to. -/
def isLabel : Stmt → Bool
  | .label _ _ => true
  | _ => false

mutual

/-- The number of blocks of a statement and of the statements inside of it. -/
def blockCount : Stmt → Nat
  | .ifThen _ (.mk _ _ body) elsifs otherwise =>
    1 + max 1 (blockCountAll body) + blockCountElsifs elsifs +
      match otherwise with
      | some ss => max 1 (blockCountAll ss)
      | none => 0
  | .caseOf _ _ branches otherwise =>
    1 + blockCountBranches branches +
      match otherwise with
      | some ss => max 1 (blockCountAll ss)
      | none => 0
  | .forLoop _ _ _ _ _ body | .whileLoop _ _ body => 2 + max 1 (blockCountAll body)
  | .repeatLoop _ body _ => 3 + max 1 (blockCountAll body)
  | .region _ _ body => max 1 (blockCountAll body)
  | _ => 1

/-- The number of blocks of some statements; a body without any has one all the same. -/
def blockCountAll : List Stmt → Nat
  | [] => 0
  | s :: ss => blockCount s + blockCountAll ss

/-- The number of blocks of some branches after the first. -/
def blockCountElsifs : List IfBranch → Nat
  | [] => 0
  | .mk _ _ body :: bs => 1 + max 1 (blockCountAll body) + blockCountElsifs bs

/-- The number of blocks of some choices. -/
def blockCountBranches : List CaseBranch → Nat
  | [] => 0
  | .mk _ _ body :: bs => max 1 (blockCountAll body) + blockCountBranches bs

end

end Stmt

namespace Flow

open Stmt

/-! ### Sites -/

/-- A statement where it stands in the graph of a list. -/
structure Site where
  stmt : Stmt
  /-- Its list has been left before it, and no label has come since. -/
  dead : Bool
  loop : Option Loop
  /-- The number of its first block. -/
  first : Nat

namespace Site

mutual

/-- The sites inside of a statement whose first block is `n`. -/
def inStmt (loop : Option Loop) (n : Nat) : Stmt → List Site
  | .ifThen _ (.mk _ _ body) elsifs otherwise =>
    let known := n + 1 + max 1 (blockCountAll body)
    inList loop (n + 1) false body ++ inElsifs loop known elsifs ++
      match otherwise with
      | some ss => inList loop (known + blockCountElsifs elsifs) false ss
      | none => []
  | .caseOf _ _ branches otherwise =>
    inBranches loop (n + 1) branches ++
      match otherwise with
      | some ss => inList loop (n + 1 + blockCountBranches branches) false ss
      | none => []
  | .forLoop _ _ _ _ _ body | .whileLoop _ _ body => inList (some ⟨n, n + 1⟩) (n + 2) false body
  | .repeatLoop _ body _ => inList (some ⟨n + 1, n + 2⟩) (n + 3) false body
  | .region _ _ body => inList loop n false body
  | _ => []

/-- The sites of some statements whose first block is `n`; `dead` says whether their list has been
left before them. -/
def inList (loop : Option Loop) (n : Nat) (dead : Bool) : List Stmt → List Site
  | [] => []
  | s :: ss =>
    let dead := dead && !s.isLabel
    ⟨s, dead, loop, n⟩ :: (inStmt loop n s ++
      inList loop (n + blockCount s) (dead || s.isTerminal) ss)

/-- The sites of some branches after the first. -/
def inElsifs (loop : Option Loop) (n : Nat) : List IfBranch → List Site
  | [] => []
  | .mk _ _ body :: bs =>
    inList loop (n + 1) false body ++ inElsifs loop (n + 1 + max 1 (blockCountAll body)) bs

/-- The sites of some choices. -/
def inBranches (loop : Option Loop) (n : Nat) : List CaseBranch → List Site
  | [] => []
  | .mk _ _ body :: bs =>
    inList loop n false body ++ inBranches loop (n + max 1 (blockCountAll body)) bs

end

theorem inStmt_ifThen (loop : Option Loop) (n : Nat) (p q : Span) (c : Expr) (body : List Stmt)
    (elsifs : List IfBranch) (otherwise : Option (List Stmt)) :
    inStmt loop n (.ifThen p (.mk q c body) elsifs otherwise) =
      inList loop (n + 1) false body ++ inElsifs loop (n + 1 + max 1 (blockCountAll body)) elsifs ++
        inList loop (n + 1 + max 1 (blockCountAll body) + blockCountElsifs elsifs) false
          (otherwise.getD []) := by
  cases otherwise <;> rfl

theorem inStmt_caseOf (loop : Option Loop) (n : Nat) (p : Span) (c : Expr)
    (branches : List CaseBranch) (otherwise : Option (List Stmt)) :
    inStmt loop n (.caseOf p c branches otherwise) =
      inBranches loop (n + 1) branches ++
        inList loop (n + 1 + blockCountBranches branches) false (otherwise.getD []) := by
  cases otherwise <;> rfl

/-- The fragment of the statement and of those inside of it. -/
def fragment (x : Site) : Fragment :=
  .ofStmt x.loop x.first x.stmt

/-- The block is one of the statement or of a statement inside of it. -/
def Holds (x : Site) (m : Nat) : Prop :=
  x.fragment.Holds x.first m

end Site

namespace Fragment

variable {a b f g : Fragment} {n p q : Nat} {loop : Option Loop}

/-! ### How many blocks there are -/

@[simp] theorem length_andThen :
    (a.andThen b).blocks.length = a.blocks.length + b.blocks.length :=
  List.length_append

@[simp] theorem length_orElse {source : Nat} {kind : EdgeKind} :
    (a.orElse source kind b).blocks.length = a.blocks.length + b.blocks.length :=
  List.length_append

@[simp] theorem length_addTest {source m : Nat} {x : Block} :
    (a.addTest source m x).blocks.length = a.blocks.length + 1 := by
  simp [Fragment.addTest]

@[simp] theorem length_fallFrom {m : Nat} : (a.fallFrom m).blocks.length = a.blocks.length := rfl

@[simp] theorem length_decision {x : Block} : (decision n x).blocks.length = 1 := rfl

@[simp] theorem length_testFirst {x y : Block} :
    (testFirst n x y a).blocks.length = a.blocks.length + 2 := rfl

@[simp] theorem length_testLast {x y z : Block} :
    (testLast n x y z a).blocks.length = a.blocks.length + 3 := rfl

mutual

theorem length_ofStmt (loop : Option Loop) (n : Nat) :
    ∀ s, (ofStmt loop n s).blocks.length = s.blockCount
  -- The recursion follows the building of the fragment; every way to build adds a fixed number of
  -- blocks.
  | .ifThen p (.mk q c body) elsifs otherwise => by
    rw [ofStmt_ifThen]
    cases otherwise with
    | some ss =>
      simp only [elseDo, blockCount, length_orElse, length_decision,
        length_ofElsifs loop n n _ elsifs, length_ofList loop _ body, length_ofList loop _ ss]
    | none =>
      simp only [elseDo, blockCount, length_fallFrom, length_orElse, length_decision,
        length_ofElsifs loop n n _ elsifs, length_ofList loop _ body, Nat.add_zero]
  | .caseOf p c branches otherwise => by
    rw [ofStmt_caseOf]
    cases otherwise with
    | some ss =>
      simp only [elseDo, blockCount, length_orElse, length_decision,
        length_ofBranches loop n _ branches, length_ofList loop _ ss]
    | none =>
      simp only [elseDo, blockCount, length_fallFrom, length_decision,
        length_ofBranches loop n _ branches, Nat.add_zero]
  | .forLoop _ _ _ _ _ body => by
    rw [ofStmt, blockCount, length_testFirst, length_ofList _ _ body, Nat.add_comm]
  | .whileLoop _ _ body => by
    rw [ofStmt, blockCount, length_testFirst, length_ofList _ _ body, Nat.add_comm]
  | .repeatLoop _ body _ => by
    rw [ofStmt, blockCount, length_testLast, length_ofList _ _ body, Nat.add_comm]
  | .region _ _ [] => rfl
  -- A list has a block of its own only when it is empty, and this one is not.
  | .region _ _ (first :: rest) => by
    have nonempty := (fits_ofStmt loop n first).nonempty
    have head := length_ofStmt loop n first
    rw [ofStmt, blockCount, length_ofTail loop n _ rest, head, blockCountAll]
    omega
  | .leave _ _ => rfl
  | .exitLoop _ => by cases loop <;> rfl
  | .nextPass _ => by cases loop <;> rfl
  | .assignment .. | .call .. | .invoke .. | .empty _ | .goto .. | .label .. => rfl

theorem length_ofList (loop : Option Loop) (n : Nat) :
    ∀ ss, (ofList loop n ss).blocks.length = max 1 (blockCountAll ss)
  | [] => rfl
  | s :: ss => by
    have nonempty := (fits_ofStmt loop n s).nonempty
    have head := length_ofStmt loop n s
    rw [ofList, length_ofTail loop n _ ss, head, blockCountAll]
    omega

theorem length_ofTail (loop : Option Loop) (n : Nat) (done : Fragment) :
    ∀ ss, (ofTail loop n done ss).blocks.length = done.blocks.length + blockCountAll ss
  | [] => rfl
  | s :: ss => by
    rw [ofTail, length_ofTail loop n _ ss, length_andThen, length_ofStmt loop _ s, blockCountAll,
      Nat.add_assoc]

theorem length_ofElsifs (loop : Option Loop) (n source : Nat) (done : Fragment) :
    ∀ bs, (ofElsifs loop n source done bs).1.blocks.length =
      done.blocks.length + blockCountElsifs bs
  | [] => rfl
  | .mk _ _ body :: bs => by
    rw [ofElsifs, length_ofElsifs loop n _ _ bs, length_orElse, length_addTest,
      length_ofList loop _ body, blockCountElsifs, Nat.add_assoc, Nat.add_assoc, Nat.add_assoc]

theorem length_ofBranches (loop : Option Loop) (n : Nat) (done : Fragment) :
    ∀ bs, (ofBranches loop n done bs).blocks.length = done.blocks.length + blockCountBranches bs
  | [] => rfl
  | .mk _ _ body :: bs => by
    rw [ofBranches, length_ofBranches loop n _ bs, length_orElse, length_ofList loop _ body,
      blockCountBranches, Nat.add_assoc]

end

/-! ### Parts with one way in -/

/-- The fragment `a`, numbered from `p` on, stands in the fragment `f`, numbered from `n` on, and
from outside an edge enters it at its first block only. -/
structure IsPart (a : Fragment) (p : Nat) (f : Fragment) (n : Nat) : Prop where
  blocks : ∃ front back, f.blocks = front ++ a.blocks ++ back ∧ p = n + front.length
  entry : ∀ m m', Joins f.edges m m' → a.Holds p m' → m' ≠ p → Joins a.edges m m'

/-- The loop around a fragment that begins at `n` has been begun before it. -/
def Outside (loop : Option Loop) (n : Nat) : Prop :=
  ∀ m, Loop.Ends loop m → m < n

theorem outside_none (n : Nat) : Outside none n :=
  fun m h => absurd h (Loop.ends_none m)

theorem Outside.mono (h : Outside loop n) (le : n ≤ p) : Outside loop p :=
  fun m ends => Nat.lt_of_lt_of_le (h m ends) le

theorem outside_some {l : Loop} (header : l.header < n) (exit : l.exit < n) :
    Outside (some l) n := by
  intro m ends
  rcases (Loop.ends_some l m).mp ends with rfl | rfl
  · exact header
  · exact exit

theorem IsPart.refl (a : Fragment) (n : Nat) : a.IsPart n a n :=
  ⟨⟨[], [], by simp, rfl⟩, fun _ _ edge _ _ => edge⟩

theorem IsPart.holds (h : a.IsPart p f n) {m : Nat} (hm : a.Holds p m) : f.Holds n m := by
  obtain ⟨front, back, parts, rfl⟩ := h.blocks
  simp only [Holds, parts, List.length_append] at hm ⊢
  omega

theorem IsPart.trans (h : a.IsPart p b q) (h' : b.IsPart q f n) : a.IsPart p f n := by
  refine ⟨?_, fun m m' edge inside below => ?_⟩
  · obtain ⟨front, back, parts, rfl⟩ := h.blocks
    obtain ⟨front', back', parts', rfl⟩ := h'.blocks
    exact ⟨front' ++ front, back ++ back', by simp [parts', parts], by simp [Nat.add_assoc]⟩
  · -- the first block of the middle one is not inside of `a`, unless it is also that of `a`
    have low := (h.holds (m := p) ⟨Nat.le_refl p, Nat.lt_of_le_of_lt inside.1 inside.2⟩).1
    have ne : m' ≠ q := by
      have := inside.1
      omega
    exact h.entry m m' (h'.entry m m' edge (h.holds inside) ne) inside below

/-- One fragment comes right after another one, and all edges in between lead to its first block. -/
structure Splits (f a b : Fragment) : Prop where
  blocks : f.blocks = a.blocks ++ b.blocks
  edges : ∀ m m', Joins f.edges m m' → Joins a.edges m m' ∨ Joins b.edges m m' ∨ m' = b.first

theorem splits_andThen : (a.andThen b).Splits a b := by
  refine ⟨rfl, fun m m' edge => ?_⟩
  simp only [Fragment.andThen, joins_append, joins_map] at edge
  rcases edge with (edge | edge) | ⟨-, eq⟩
  · exact .inl edge
  · exact .inr (.inl edge)
  · exact .inr (.inr eq)

theorem splits_orElse {source : Nat} {kind : EdgeKind} : (a.orElse source kind b).Splits a b := by
  refine ⟨rfl, fun m m' edge => ?_⟩
  simp only [Fragment.orElse, joins_append, joins_cons, joins_nil, or_false] at edge
  rcases edge with (edge | edge) | ⟨-, eq⟩
  · exact .inl edge
  · exact .inr (.inl edge)
  · exact .inr (.inr eq.symm)

theorem Splits.left (h : f.Splits a b) (targets : ∀ m m', Joins b.edges m m' →
      b.Holds (n + a.blocks.length) m' ∨ Loop.Ends loop m')
    (fits : b.Fits (n + a.blocks.length)) (outside : Outside loop n) : a.IsPart n f n := by
  refine ⟨⟨[], b.blocks, h.blocks, rfl⟩, fun m m' edge inside _ => ?_⟩
  have first := fits.first
  obtain ⟨low, high⟩ := inside
  rcases h.edges m m' edge with edge | edge | rfl
  · exact edge
  · rcases targets m m' edge with there | ends
    · have := there.1
      omega
    · -- a loop around both has been begun before them
      have := outside m' ends
      omega
  · omega

theorem Splits.right (h : f.Splits a b)
    (targets : ∀ m m', Joins a.edges m m' → a.Holds n m' ∨ Loop.Ends loop m')
    (fits : b.Fits (n + a.blocks.length)) (outside : Outside loop n) :
    b.IsPart (n + a.blocks.length) f n := by
  refine ⟨⟨a.blocks, [], by rw [h.blocks, List.append_nil], rfl⟩, fun m m' edge inside below => ?_⟩
  obtain ⟨low, high⟩ := inside
  rcases h.edges m m' edge with edge | edge | rfl
  · rcases targets m m' edge with there | ends
    · have := there.2
      omega
    · have := outside m' ends
      omega
  · exact edge
  · exact absurd fits.first below

theorem isPart_addTest {source : Nat} {x : Block} :
    a.IsPart n (a.addTest source (n + a.blocks.length) x) n := by
  refine ⟨⟨[], [x], rfl, rfl⟩, fun m m' edge inside _ => ?_⟩
  simp only [Fragment.addTest, joins_append, joins_cons, joins_nil, or_false] at edge
  rcases edge with edge | ⟨-, rfl⟩
  · exact edge
  · exact absurd inside.2 (Nat.lt_irrefl _)

theorem isPart_fallFrom {m : Nat} : a.IsPart n (a.fallFrom m) n :=
  ⟨⟨[], [], by simp [Fragment.fallFrom], rfl⟩, fun _ _ edge _ _ => edge⟩

/-- From a loop that tests before each pass control enters the body at its first block only. -/
theorem isPart_testFirst {x y : Block} (fits : a.Fits (n + 2)) :
    a.IsPart (n + 2) (testFirst n x y a) n := by
  have first := fits.first
  refine ⟨⟨[x, y], [], by simp [Fragment.testFirst], rfl⟩, fun m m' edge inside below => ?_⟩
  simp only [Fragment.testFirst, joins_append, joins_cons, joins_map, joins_nil, or_false] at edge
  obtain ⟨low, -⟩ := inside
  rcases edge with (edge | edge | edge) | edge
  · exact edge
  all_goals omega

/-- From a loop that tests after each pass control enters the body at its first block only. -/
theorem isPart_testLast {x y z : Block} (fits : a.Fits (n + 3)) :
    a.IsPart (n + 3) (testLast n x y z a) n := by
  have first := fits.first
  refine ⟨⟨[x, y, z], [], by simp [Fragment.testLast], rfl⟩, fun m m' edge inside below => ?_⟩
  simp only [Fragment.testLast, joins_append, joins_cons, joins_map, joins_nil, or_false] at edge
  obtain ⟨low, -⟩ := inside
  rcases edge with ((edge | edge) | edge) | edge | edge
  · exact edge
  all_goals omega

/-! ### What is done stays a part -/

theorem isPart_elseDo (ss : Option (List Stmt)) {source : Nat} (outside : Outside loop n) :
    a.IsPart n (elseDo loop n source a ss) n := by
  cases ss with
  | some ss =>
    exact splits_orElse.left (drains_ofList loop _ ss).targets (fits_ofList loop _ ss) outside
  | none => exact isPart_fallFrom

theorem isPart_ofTail (outside : Outside loop n) (ss : List Stmt) :
    ∀ done : Fragment, done.IsPart n (ofTail loop n done ss) n := by
  induction ss with
  | nil => exact fun done => .refl done n
  | cons s ss ih =>
    intro done
    rw [ofTail]
    exact (splits_andThen.left (drains_ofStmt loop _ s).targets (fits_ofStmt loop _ s) outside).trans
      (ih _)

theorem isPart_ofElsifs (outside : Outside loop n) (bs : List IfBranch) :
    ∀ (source : Nat) (done : Fragment), done.IsPart n (ofElsifs loop n source done bs).1 n := by
  induction bs with
  | nil => exact fun _ done => .refl done n
  | cons b bs ih =>
    intro source done
    obtain ⟨span, _, body⟩ := b
    rw [ofElsifs]
    have length (x : Block) : n + done.blocks.length + 1 =
        n + (done.addTest source (n + done.blocks.length) x).blocks.length := by
      rw [length_addTest, Nat.add_assoc]
    refine (isPart_addTest.trans (splits_orElse.left ?_ ?_ outside)).trans (ih _ _)
    · rw [← length]
      exact (drains_ofList loop _ body).targets
    · rw [← length]
      exact fits_ofList loop _ body

theorem isPart_ofBranches (outside : Outside loop n) (bs : List CaseBranch) :
    ∀ done : Fragment, done.IsPart n (ofBranches loop n done bs) n := by
  induction bs with
  | nil => exact fun done => .refl done n
  | cons b bs ih =>
    intro done
    obtain ⟨_, _, body⟩ := b
    rw [ofBranches]
    exact (splits_orElse.left (drains_ofList loop _ body).targets (fits_ofList loop _ body)
      outside).trans (ih _)

/-! ### Blocks that control does not come to -/

/-- A set of blocks of the fragment, without its first one, that no edge enters from elsewhere. -/
structure Seals (f : Fragment) (n : Nat) (D : Nat → Prop) : Prop where
  inside : ∀ m, D m → f.Holds n m
  first : ¬D n
  edges : ∀ m m', Joins f.edges m m' → D m' → D m

/-- The fragment of the site is a part, and is sealed if the site is dead. -/
structure Lodges (f : Fragment) (n : Nat) (x : Site) : Prop where
  part : x.fragment.IsPart x.first f n
  sealed : x.dead = true → ∃ D, f.Seals n D ∧ ∀ m, x.Holds m → D m

/-- What is sealed in a part is sealed in the whole, for the part is entered at its first block. -/
theorem Seals.into {D : Nat → Prop} (h : a.Seals p D) (part : a.IsPart p f n) : f.Seals n D := by
  refine ⟨fun m hm => part.holds (h.inside m hm), fun hn => ?_, fun m m' edge hm' => ?_⟩
  · obtain ⟨front, _, _, rfl⟩ := part.blocks
    have same : n + front.length = n := by
      have := (h.inside n hn).1
      omega
    rw [same] at h
    exact h.first hn
  · have below : m' ≠ p := by
      rintro rfl
      exact h.first hm'
    exact h.edges m m' (part.entry m m' edge (h.inside m' hm') below) hm'

theorem Lodges.into {x : Site} (h : a.Lodges p x) (part : a.IsPart p f n) : f.Lodges n x := by
  refine ⟨h.part.trans part, fun dead => ?_⟩
  obtain ⟨D, sealed, holds⟩ := h.sealed dead
  exact ⟨D, sealed.into part, holds⟩

/-- Control does not come to the end of the fragment: from the block `low` on, no edge comes in from
before it, and control falls out of these blocks only. -/
structure Barred (f : Fragment) (n low : Nat) : Prop where
  above : n < low
  within : low ≤ n + f.blocks.length
  exits : ∀ m ∈ f.exits, low ≤ m
  edges : ∀ m m', Joins f.edges m m' → low ≤ m' → low ≤ m

/-- Control falls nowhere out of a terminal statement. -/
theorem exits_ofStmt_of_isTerminal (loop : Option Loop) (n : Nat) {s : Stmt}
    (terminal : s.isTerminal = true) : (ofStmt loop n s).exits = [] := by
  cases s <;> simp only [isTerminal, Bool.false_eq_true] at terminal <;> cases loop <;> rfl

theorem barred_of_exits_eq_nil (none : f.exits = []) (fits : f.Fits n)
    (targets : ∀ m m', Joins f.edges m m' → f.Holds n m' ∨ Loop.Ends loop m')
    (outside : Outside loop n) : f.Barred n (n + f.blocks.length) := by
  have nonempty := fits.nonempty
  refine ⟨by omega, Nat.le_refl _, by simp [none], fun m m' edge le => ?_⟩
  rcases targets m m' edge with there | ends
  · have := there.2
    omega
  · have := outside m' ends
    omega

/-- Control does not come to the end of what follows either. -/
theorem Barred.andThen {low : Nat} (h : a.Barred n low) (fits : b.Fits (n + a.blocks.length)) :
    (a.andThen b).Barred n low := by
  have within := h.within
  have after (m : Nat) (hm : b.Holds (n + a.blocks.length) m) : low ≤ m :=
    Nat.le_trans within hm.1
  refine ⟨h.above, ?_, fun m hm => after m (fits.exits m hm), fun m m' edge le => ?_⟩
  · rw [length_andThen]
    omega
  · simp only [Fragment.andThen, joins_append, joins_map] at edge
    rcases edge with (edge | edge) | ⟨hm, -⟩
    · exact h.edges m m' edge le
    · exact after m (fits.edges m m' edge)
    · exact h.exits m hm

theorem Barred.seals {low : Nat} (h : f.Barred n low) (fits : f.Fits n) :
    f.Seals n fun m => low ≤ m ∧ f.Holds n m :=
  ⟨fun _ hm => hm.2, fun hn => absurd hn.1 (Nat.not_le.mpr h.above),
    fun m m' edge hm' => ⟨h.edges m m' edge hm'.1, fits.edges m m' edge⟩⟩

/-! ### The sites of statements -/

mutual

/-- The fragment of a statement lodges the sites inside of it. -/
theorem lodges_ofStmt (loop : Option Loop) (n : Nat) (outside : Outside loop n) :
    ∀ s, ∀ x ∈ Site.inStmt loop n s, (ofStmt loop n s).Lodges n x
  | .ifThen p (.mk q c body) elsifs otherwise => by
    intro x hx
    rw [ofStmt_ifThen]
    generalize (⟨.branch, some (.ifThen p (.mk q c body) elsifs otherwise), q⟩ : Block) = test
    let first := (decision n test).orElse n .whenTrue (ofList loop (n + 1) body)
    have fits_body := fits_ofList loop (n + 1) body
    have decides : (decision n test).Drains n loop (some n) := drains_decision n test
    have drains_first : first.Drains n loop (some n) :=
      decides.orElse (drains_ofList loop (n + 1) body) fits_body
    have length_first : n + first.blocks.length = n + 1 + max 1 (blockCountAll body) := by
      simp only [first, length_orElse, length_decision, length_ofList, Nat.add_assoc]
    have known : (ofElsifs loop n n first elsifs).1.IsPart n (elseDo loop n
        (ofElsifs loop n n first elsifs).2 (ofElsifs loop n n first elsifs).1 otherwise) n :=
      isPart_elseDo otherwise outside
    rw [Site.inStmt_ifThen, List.mem_append, List.mem_append] at hx
    -- the site is in the first body, in one of the branches after it, or in the last part
    rcases hx with (hx | hx) | hx
    · have body_part : (ofList loop (n + 1) body).IsPart (n + 1) first n :=
        splits_orElse.right decides.targets fits_body outside
      exact (lodges_ofList loop (n + 1) (outside.mono (Nat.le_succ n)) body x hx).into
        (body_part.trans ((isPart_ofElsifs outside elsifs n first).trans known))
    · rw [← length_first] at hx
      exact (lodges_ofElsifs loop n n outside first drains_first elsifs x hx).into known
    · have drains := drains_ofElsifs loop n n first elsifs drains_first
      have length := length_ofElsifs loop n n first elsifs
      cases otherwise with
      | none => exact absurd hx List.not_mem_nil
      | some ss =>
        rw [← length_first, Nat.add_assoc, ← length] at hx
        exact (lodges_ofList loop _ (outside.mono (Nat.le_add_right _ _)) ss x hx).into
          (splits_orElse.right drains.targets (fits_ofList loop _ ss) outside)
  | .caseOf p c branches otherwise => by
    intro x hx
    rw [ofStmt_caseOf]
    generalize (⟨.branch, some (.caseOf p c branches otherwise), p⟩ : Block) = test
    have decides : (decision n test).Drains n loop (some n) := drains_decision n test
    rw [Site.inStmt_caseOf, List.mem_append] at hx
    rcases hx with hx | hx
    · exact (lodges_ofBranches loop n outside _ decides branches x hx).into
        (isPart_elseDo otherwise outside)
    · have drains := drains_ofBranches loop n _ branches decides
      have length := length_ofBranches loop n (decision n test) branches
      cases otherwise with
      | none => exact absurd hx List.not_mem_nil
      | some ss =>
        rw [Nat.add_assoc, ← length_decision (n := n) (x := test), ← length] at hx
        exact (lodges_ofList loop _ (outside.mono (Nat.le_add_right _ _)) ss x hx).into
          (splits_orElse.right drains.targets (fits_ofList loop _ ss) outside)
  | .forLoop _ _ _ _ _ body => by
    intro x hx
    rw [ofStmt]
    have inside : Outside (some ⟨n, n + 1⟩) (n + 2) :=
      outside_some (Nat.lt_add_of_pos_right Nat.two_pos) (Nat.lt_succ_self _)
    exact (lodges_ofList _ (n + 2) inside body x hx).into (isPart_testFirst (fits_ofList _ _ body))
  | .whileLoop _ _ body => by
    intro x hx
    rw [ofStmt]
    have inside : Outside (some ⟨n, n + 1⟩) (n + 2) :=
      outside_some (Nat.lt_add_of_pos_right Nat.two_pos) (Nat.lt_succ_self _)
    exact (lodges_ofList _ (n + 2) inside body x hx).into (isPart_testFirst (fits_ofList _ _ body))
  | .repeatLoop _ body _ => by
    intro x hx
    rw [ofStmt]
    have inside : Outside (some ⟨n + 1, n + 2⟩) (n + 3) :=
      outside_some (Nat.add_lt_add_left (by decide) n) (Nat.lt_succ_self _)
    exact (lodges_ofList _ (n + 3) inside body x hx).into (isPart_testLast (fits_ofList _ _ body))
  | .region _ _ [] => fun _ hx => absurd hx List.not_mem_nil
  | .region _ _ (s :: ss) => lodges_ofList loop n outside (s :: ss)
  | .leave _ _ | .exitLoop _ | .nextPass _ | .assignment .. | .call .. | .invoke .. | .empty _
  | .goto .. | .label .. => fun _ hx => absurd hx List.not_mem_nil

/-- The fragment of a list lodges the sites of the list. -/
theorem lodges_ofList (loop : Option Loop) (n : Nat) (outside : Outside loop n) :
    ∀ ss, ∀ x ∈ Site.inList loop n false ss, (ofList loop n ss).Lodges n x
  | [], x, hx => absurd hx List.not_mem_nil
  | s :: ss, x, hx => by
    have fits := fits_ofStmt loop n s
    have targets := (drains_ofStmt loop n s).targets
    have part := isPart_ofTail outside ss (ofStmt loop n s)
    rw [ofList]
    simp only [Site.inList, Bool.false_and, Bool.false_or, List.mem_cons, List.mem_append] at hx
    rcases hx with rfl | hx | hx
    · exact ⟨part, fun dead => absurd dead Bool.false_ne_true⟩
    · exact (lodges_ofStmt loop n outside s x hx).into part
    · refine lodges_ofTail loop n outside _ s.isTerminal fits (drains_ofStmt loop n s)
        (fun terminal => ⟨_, barred_of_exits_eq_nil (exits_ofStmt_of_isTerminal loop n terminal) fits
          targets outside⟩) ss x ?_
      rwa [length_ofStmt]

/-- What is done lodges, with the statements after it, the sites of these. -/
theorem lodges_ofTail (loop : Option Loop) (n : Nat) (outside : Outside loop n) (done : Fragment)
    (dead : Bool) (fits : done.Fits n) (drains : done.Drains n loop none)
    (barred : dead = true → ∃ low, done.Barred n low) :
    ∀ ss, ∀ x ∈ Site.inList loop (n + done.blocks.length) dead ss,
      (ofTail loop n done ss).Lodges n x
  | [], x, hx => absurd hx List.not_mem_nil
  | s :: ss, x, hx => by
    let next := ofStmt loop (n + done.blocks.length) s
    have fits_next : next.Fits (n + done.blocks.length) := fits_ofStmt loop _ s
    have drains_next : next.Drains (n + done.blocks.length) loop none := drains_ofStmt loop _ s
    have fits_both := fits.andThen fits_next
    have drains_both := drains.andThen drains_next fits_next
    have part : next.IsPart (n + done.blocks.length) (done.andThen next) n :=
      splits_andThen.right drains.targets fits_next outside
    have whole := isPart_ofTail outside ss (done.andThen next)
    rw [ofTail]
    simp only [Site.inList, List.mem_cons, List.mem_append] at hx
    rcases hx with rfl | hx | hx
    · refine ⟨part.trans whole, fun h => ?_⟩
      -- what is barred before the statement seals the statement with it
      obtain ⟨low, bar⟩ := barred ((Bool.and_eq_true _ _).mp h).1
      refine ⟨_, ((bar.andThen fits_next).seals fits_both).into whole, fun m hm => ⟨?_, ?_⟩⟩
      · exact Nat.le_trans bar.within hm.1
      · exact part.holds hm
    · exact (lodges_ofStmt loop _ (outside.mono (Nat.le_add_right _ _)) s x hx).into
        (part.trans whole)
    · refine lodges_ofTail loop n outside _ ((dead && !s.isLabel) || s.isTerminal) fits_both
        drains_both (fun h => ?_) ss x ?_
      · -- the list had been left before, or the statement leaves it
        rcases (Bool.or_eq_true _ _).mp h with h | terminal
        · obtain ⟨low, bar⟩ := barred ((Bool.and_eq_true _ _).mp h).1
          exact ⟨low, bar.andThen fits_next⟩
        · exact ⟨_, barred_of_exits_eq_nil (exits_ofStmt_of_isTerminal loop _ terminal) fits_both
            drains_both.targets outside⟩
      · rwa [length_andThen, length_ofStmt, ← Nat.add_assoc]

/-- What is done lodges, with the branches after it, the sites of these. -/
theorem lodges_ofElsifs (loop : Option Loop) (n source : Nat) (outside : Outside loop n)
    (done : Fragment) (drains : done.Drains n loop (some source)) :
    ∀ bs, ∀ x ∈ Site.inElsifs loop (n + done.blocks.length) bs,
      (ofElsifs loop n source done bs).1.Lodges n x
  | [], x, hx => absurd hx List.not_mem_nil
  | .mk p _ body :: bs, x, hx => by
    let tested := done.addTest source (n + done.blocks.length) { kind := .branch, span := p }
    have length : n + tested.blocks.length = n + done.blocks.length + 1 := by
      rw [length_addTest, Nat.add_assoc]
    have drains_tested : tested.Drains n loop (some (n + done.blocks.length)) := drains.addTest
    have fits_body : (ofList loop (n + done.blocks.length + 1) body).Fits
        (n + tested.blocks.length) := length ▸ fits_ofList loop _ body
    have drains_body : (ofList loop (n + done.blocks.length + 1) body).Drains
        (n + tested.blocks.length) loop none := length ▸ drains_ofList loop _ body
    rw [ofElsifs]
    simp only [Site.inElsifs, List.mem_append] at hx
    rcases hx with hx | hx
    -- The site is in this body: the body is a part of what the first branches have made, which is a
    -- part of the whole.
    · have part : (ofList loop (n + done.blocks.length + 1) body).IsPart
          (n + tested.blocks.length) (tested.orElse (n + done.blocks.length) .whenTrue
            (ofList loop (n + done.blocks.length + 1) body)) n :=
        splits_orElse.right drains_tested.targets fits_body outside
      rw [length] at part
      exact (lodges_ofList loop _ (outside.mono (by omega)) body x hx).into
        (part.trans (isPart_ofElsifs outside bs _ _))
    -- The site is in a later branch, whose test is reached from this one.
    · refine lodges_ofElsifs loop n _ outside _ (drains_tested.orElse drains_body fits_body) bs x ?_
      rwa [length_orElse, ← Nat.add_assoc, length, length_ofList]

/-- What is done lodges, with the choices after it, the sites of these. -/
theorem lodges_ofBranches (loop : Option Loop) (n : Nat) (outside : Outside loop n)
    (done : Fragment) (drains : done.Drains n loop (some n)) :
    ∀ bs, ∀ x ∈ Site.inBranches loop (n + done.blocks.length) bs,
      (ofBranches loop n done bs).Lodges n x
  | [], x, hx => absurd hx List.not_mem_nil
  | .mk _ _ body :: bs, x, hx => by
    have fits_body := fits_ofList loop (n + done.blocks.length) body
    rw [ofBranches]
    simp only [Site.inBranches, List.mem_append] at hx
    rcases hx with hx | hx
    · exact (lodges_ofList loop _ (outside.mono (Nat.le_add_right _ _)) body x hx).into
        ((splits_orElse.right drains.targets fits_body outside).trans (isPart_ofBranches outside bs _))
    · refine lodges_ofBranches loop n outside _
        (drains.orElse (drains_ofList loop _ body) fits_body) bs x ?_
      rwa [length_orElse, ← Nat.add_assoc, length_ofList]

end

end Fragment

end Flow

end Plc

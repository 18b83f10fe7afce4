/-
No block of a graph is a dead end.

While a fragment is built, its edges end inside of it or at the loop around it, and from each of
its blocks control can go on until it leaves the fragment: by an exit, by a leave, to the loop
around, or at a decision that still waits for a choice.  Each way of putting fragments together
keeps this, whether or not control ever comes to the block.

* `Fragment.Drains` — the property, with the loop around the fragment and the decision that waits;
* `DrainsFrom.into` — what leads out of a part leads on in the whole;
* `Drains.andThen`, `Drains.orElse`, `Drains.testFirst`, … — one rule for each way to build;
* `drains_ofStmt`, `drains_ofList` — fragments of statements drain, and nothing waits in them.
-/
import Plc.Proofs.Flow.Fragment
import Mathlib.Logic.Relation

namespace Plc.Flow

open Relation

/-- The block is where the loop is tested or where it ends. -/
def Loop.Ends (loop : Option Loop) (m : Nat) : Prop :=
  ∃ l ∈ loop, m = l.header ∨ m = l.exit

@[simp] theorem Loop.ends_none (m : Nat) : ¬Loop.Ends none m := by
  simp [Loop.Ends]

@[simp] theorem Loop.ends_some (l : Loop) (m : Nat) :
    Loop.Ends (some l) m ↔ m = l.header ∨ m = l.exit := by
  simp [Loop.Ends]

namespace Fragment

/-- Control can leave the fragment at the block: it falls out to what follows, leaves the whole
list, is at the loop around, or at the decision that still waits for a choice. -/
def Outlet (f : Fragment) (loop : Option Loop) (waiting : Option Nat) (m : Nat) : Prop :=
  m ∈ f.exits ∨ m ∈ f.leaves ∨ Loop.Ends loop m ∨ m ∈ waiting

/-- The edges of the fragment lead from the block to one where control can leave it. -/
def DrainsFrom (f : Fragment) (loop : Option Loop) (waiting : Option Nat) (m : Nat) : Prop :=
  ∃ m', ReflTransGen (Joins f.edges) m m' ∧ f.Outlet loop waiting m'

/-- Edges end in the fragment or at the loop around it, and each of its blocks leads to one where
control can leave it. -/
structure Drains (f : Fragment) (n : Nat) (loop : Option Loop) (waiting : Option Nat) : Prop where
  targets : ∀ m m', Joins f.edges m m' → f.Holds n m' ∨ Loop.Ends loop m'
  drains : ∀ m, f.Holds n m → f.DrainsFrom loop waiting m

variable {a b f : Fragment} {n m m' : Nat} {loop : Option Loop} {waiting waiting' : Option Nat}

theorem DrainsFrom.here (h : f.Outlet loop waiting m) : f.DrainsFrom loop waiting m :=
  ⟨m, .refl, h⟩

theorem DrainsFrom.step (edge : Joins f.edges m m') (rest : f.DrainsFrom loop waiting m') :
    f.DrainsFrom loop waiting m := by
  obtain ⟨x, along, outlet⟩ := rest
  exact ⟨x, .head edge along, outlet⟩

/-- What leads out of a part leads on in the whole, if the whole has the edges of the part and goes
on from where control leaves the part. -/
theorem DrainsFrom.into {loop' : Option Loop} (h : a.DrainsFrom loop' waiting' m)
    (edges : ∀ m m', Joins a.edges m m' → Joins f.edges m m')
    (outlets : ∀ m', a.Outlet loop' waiting' m' → f.DrainsFrom loop waiting m') :
    f.DrainsFrom loop waiting m := by
  obtain ⟨x, along, outlet⟩ := h
  obtain ⟨y, rest, out⟩ := outlets x outlet
  exact ⟨y, (ReflTransGen.mono edges _ _ along).trans rest, out⟩

theorem holds_one {x : Block} {es : List Edge} {exits leaves : List Nat} :
    Holds ⟨[x], es, n, exits, leaves⟩ n m ↔ m = n := by
  simp only [Holds, List.length_singleton]
  omega

/-! ### Single blocks -/

theorem drains_single (n : Nat) (x : Block) : (single n x).Drains n loop none := by
  refine ⟨fun m m' h => absurd h (joins_nil m m'), fun m hm => ?_⟩
  obtain rfl := holds_one.mp hm
  exact .here (.inl (by simp [single]))

theorem drains_leave (n : Nat) (x : Block) : (jump n x none).Drains n loop none := by
  refine ⟨fun m m' h => absurd h (joins_nil m m'), fun m hm => ?_⟩
  obtain rfl := holds_one.mp hm
  exact .here (.inr (.inl (by simp [jump])))

/-- A jump to the loop around, or to the end of the list where there is no loop. -/
theorem drains_jump (n : Nat) (x : Block) {kind : EdgeKind} {place : Loop → Nat}
    (h : ∀ l, place l = l.header ∨ place l = l.exit) :
    (jump n x (loop.map fun l => ⟨n, place l, kind⟩)).Drains n loop none := by
  cases loop with
  | none => exact drains_leave n x
  | some l =>
    have ends : Loop.Ends (some l) (place l) := (Loop.ends_some l _).mpr (h l)
    refine ⟨fun m m' hm => .inr ?_, fun m hm => ?_⟩
    · obtain ⟨-, rfl⟩ : n = m ∧ place l = m' := by simpa [jump] using hm
      exact ends
    · obtain rfl := holds_one.mp hm
      have edge : Joins (jump m x (some ⟨m, place l, kind⟩)).edges m (place l) := by simp [jump]
      exact .step edge (.here (.inr (.inr (.inl ends))))

theorem drains_decision (n : Nat) (x : Block) : (decision n x).Drains n loop (some n) := by
  refine ⟨fun m m' h => absurd h (joins_nil m m'), fun m hm => ?_⟩
  obtain rfl := holds_one.mp hm
  exact .here (.inr (.inr (.inr rfl)))

/-! ### Fragments put together -/

/-- What falls out of the first fragment goes on through the second. -/
theorem Drains.andThen (ha : a.Drains n loop none) (hb : b.Drains (n + a.blocks.length) loop none)
    (fits : b.Fits (n + a.blocks.length)) : (a.andThen b).Drains n loop none := by
  have first := fits.first
  -- What drains out of the second fragment drains out of both.
  have second (m : Nat) (h : b.Holds (n + a.blocks.length) m) :
      (a.andThen b).DrainsFrom loop none m := by
    refine (hb.drains m h).into (fun x y hxy => by simp [Fragment.andThen, hxy]) fun x hx =>
      .here ?_
    simp only [Outlet, Fragment.andThen, List.mem_append] at hx ⊢
    tauto
  constructor
  · intro m m' h
    have targets₁ := ha.targets m m'
    have targets₂ := hb.targets m m'
    have nonempty := fits.nonempty
    simp only [Fragment.andThen, joins_append, joins_map, Holds, List.length_append] at *
    grind
  · intro m hm
    -- A block is one of the first, from where falling out leads into the second, or one of the
    -- second.
    by_cases inside : a.Holds n m
    · refine (ha.drains m inside).into (fun x y hxy => by simp [Fragment.andThen, hxy]) ?_
      rintro x (hx | hx | hx | hx)
      · have edge : Joins (a.andThen b).edges x b.first := by simp [Fragment.andThen, hx]
        exact .step edge (second _ (first ▸ holds_of_pos fits.nonempty))
      · exact .here (.inr (.inl (List.mem_append_left _ hx)))
      · exact .here (.inr (.inr (.inl hx)))
      · cases hx
    · refine second m ⟨?_, ?_⟩ <;>
        simp only [Fragment.andThen, Holds, List.length_append] at hm inside <;> omega

/-- The decision that waits goes on with the new choice; it may wait for more. -/
theorem Drains.orElse {source : Nat} {kind : EdgeKind} (ha : a.Drains n loop (some source))
    (hb : b.Drains (n + a.blocks.length) loop none) (fits : b.Fits (n + a.blocks.length)) :
    (a.orElse source kind b).Drains n loop waiting := by
  have first := fits.first
  -- The choice drains on its own, and whatever falls out of it falls out of the whole.
  have choice (m : Nat) (h : b.Holds (n + a.blocks.length) m) :
      (a.orElse source kind b).DrainsFrom loop waiting m := by
    refine (hb.drains m h).into (fun x y hxy => by simp [Fragment.orElse, hxy]) fun x hx => .here ?_
    simp only [Outlet, Fragment.orElse, List.mem_append, Option.not_mem_none] at hx ⊢
    tauto
  constructor
  · intro m m' h
    have targets₁ := ha.targets m m'
    have targets₂ := hb.targets m m'
    have nonempty := fits.nonempty
    simp only [Fragment.orElse, joins_append, joins_cons, joins_nil, or_false, Holds,
      List.length_append] at *
    grind
  · intro m hm
    -- A block is one of the decision, from where the new edge leads to the choice, or one of the
    -- choice.
    by_cases inside : a.Holds n m
    · refine (ha.drains m inside).into (fun x y hxy => by simp [Fragment.orElse, hxy]) ?_
      rintro x (hx | hx | hx | hx)
      · exact .here (.inl (List.mem_append_left _ hx))
      · exact .here (.inr (.inl (List.mem_append_left _ hx)))
      · exact .here (.inr (.inr (.inl hx)))
      · obtain rfl : source = x := Option.some.inj hx
        have edge : Joins (a.orElse source kind b).edges source b.first := by
          simp [Fragment.orElse]
        exact .step edge (choice _ (first ▸ holds_of_pos fits.nonempty))
    · refine choice m ⟨?_, ?_⟩ <;>
        simp only [Fragment.orElse, Holds, List.length_append] at hm inside <;> omega

/-- The decision that waited goes on to the next test, which waits in its place. -/
theorem Drains.addTest {source : Nat} {x : Block} (ha : a.Drains n loop (some source)) :
    (a.addTest source (n + a.blocks.length) x).Drains n loop (some (n + a.blocks.length)) := by
  -- The new test waits, so control comes there and nowhere beyond.
  have test : (a.addTest source (n + a.blocks.length) x).DrainsFrom loop
      (some (n + a.blocks.length)) (n + a.blocks.length) := .here (.inr (.inr (.inr rfl)))
  constructor
  · intro m m' h
    have targets := ha.targets m m'
    simp only [Fragment.addTest, joins_append, joins_cons, joins_nil, or_false, Holds,
      List.length_append, List.length_singleton] at *
    grind
  · intro m hm
    by_cases inside : a.Holds n m
    · refine (ha.drains m inside).into (fun x y hxy => by simp [Fragment.addTest, hxy]) ?_
      rintro y (hy | hy | hy | hy)
      · exact .here (.inl hy)
      · exact .here (.inr (.inl hy))
      · exact .here (.inr (.inr (.inl hy)))
      · obtain rfl : source = y := Option.some.inj hy
        exact .step (by simp [Fragment.addTest]) test
    · obtain rfl : m = n + a.blocks.length := by
        simp only [Fragment.addTest, Holds, List.length_append, List.length_singleton] at hm inside
        omega
      exact test

/-- Control falls out of the decision that waited for a last choice. -/
theorem Drains.fallFrom {source : Nat} (ha : a.Drains n loop (some source)) :
    (a.fallFrom source).Drains n loop none := by
  refine ⟨ha.targets, fun m hm => (ha.drains m hm).into (fun x y hxy => hxy) ?_⟩
  rintro x (hx | hx | hx | hx)
  · exact .here (.inl (List.mem_append_left _ hx))
  · exact .here (.inr (.inl hx))
  · exact .here (.inr (.inr (.inl hx)))
  · obtain rfl : source = x := Option.some.inj hx
    exact .here (.inl (by simp [Fragment.fallFrom]))

/-! ### Loops -/

/-- From the body control comes to the test, and from the test out of the loop. -/
theorem Drains.testFirst {x y : Block} (ha : a.Drains (n + 2) (some ⟨n, n + 1⟩) none)
    (fits : a.Fits (n + 2)) : (testFirst n x y a).Drains n loop none := by
  -- The exit falls out, the test leads to the exit, and the body comes to the test or to the exit.
  have exit : (Fragment.testFirst n x y a).DrainsFrom loop none (n + 1) :=
    .here (.inl (by simp [Fragment.testFirst]))
  have test : (Fragment.testFirst n x y a).DrainsFrom loop none n :=
    .step (by simp [Fragment.testFirst]) exit
  constructor
  · intro m m' h
    have targets := ha.targets m m'
    have first := fits.first
    have nonempty := fits.nonempty
    simp only [Fragment.testFirst, joins_append, joins_cons, joins_map, joins_nil, or_false, Holds,
      List.length_cons, Loop.ends_some] at *
    grind
  · intro m hm
    by_cases inside : a.Holds (n + 2) m
    · refine (ha.drains m inside).into (fun x y hxy => by simp [Fragment.testFirst, hxy]) ?_
      rintro z (hz | hz | hz | hz)
      · exact .step (by simp [Fragment.testFirst, hz]) test
      · exact .here (.inr (.inl hz))
      · rcases (Loop.ends_some _ _).mp hz with rfl | rfl
        · exact test
        · exact exit
      · cases hz
    · obtain rfl | rfl : m = n ∨ m = n + 1 := by
        simp only [Fragment.testFirst, Holds, List.length_cons] at hm inside
        omega
      · exact test
      · exact exit

/-- From the body control comes to the test, which may also be where a pass is cut short. -/
theorem Drains.testLast {x y z : Block} (ha : a.Drains (n + 3) (some ⟨n + 1, n + 2⟩) none)
    (fits : a.Fits (n + 3)) : (testLast n x y z a).Drains n loop none := by
  -- The exit falls out, the test leads to the exit, and the body comes to the test.
  have exit : (Fragment.testLast n x y z a).DrainsFrom loop none (n + 2) :=
    .here (.inl (by simp [Fragment.testLast]))
  have edge : Joins (Fragment.testLast n x y z a).edges (n + 1) (n + 2) := by
    simp [Fragment.testLast]
  have test : (Fragment.testLast n x y z a).DrainsFrom loop none (n + 1) := .step edge exit
  have body (m : Nat) (h : a.Holds (n + 3) m) :
      (Fragment.testLast n x y z a).DrainsFrom loop none m := by
    refine (ha.drains m h).into (fun x y hxy => by simp [Fragment.testLast, hxy]) ?_
    rintro w (hw | hw | hw | hw)
    · exact .step (by simp [Fragment.testLast, hw]) test
    · exact .here (.inr (.inl hw))
    · rcases (Loop.ends_some _ _).mp hw with rfl | rfl
      · exact test
      · exact exit
    · cases hw
  have first := fits.first
  have nonempty := fits.nonempty
  constructor
  · intro m m' h
    have targets := ha.targets m m'
    simp only [Fragment.testLast, joins_append, joins_cons, joins_map, joins_nil, or_false, Holds,
      List.length_cons, Loop.ends_some] at *
    grind
  · intro m hm
    by_cases inside : a.Holds (n + 3) m
    · exact body m inside
    -- the first block leads into the body
    · obtain rfl | rfl | rfl : m = n ∨ m = n + 1 ∨ m = n + 2 := by
        simp only [Fragment.testLast, Holds, List.length_cons] at hm inside
        omega
      · have edge : Joins (Fragment.testLast m x y z a).edges m a.first := by
          simp [Fragment.testLast]
        exact .step edge (body _ (first ▸ holds_of_pos nonempty))
      · exact test
      · exact exit

/-! ### Fragments of statements -/

mutual

theorem drains_ofStmt (loop : Option Loop) (n : Nat) : ∀ s, (ofStmt loop n s).Drains n loop none
  -- The recursion follows the building of the fragment, by the lemma for each way to build.
  | .ifThen p (.mk q c body) elsifs otherwise => by
    rw [ofStmt_ifThen]
    let x : Block := ⟨.branch, some (.ifThen p (.mk q c body) elsifs otherwise), q⟩
    have test : (decision n x).Drains n loop (some n) := drains_decision n x
    have first : ((decision n x).orElse n .whenTrue (ofList loop (n + 1) body)).Drains n loop
        (some n) :=
      test.orElse (drains_ofList loop (n + 1) body) (fits_ofList loop (n + 1) body)
    have known := drains_ofElsifs loop n n _ elsifs first
    cases otherwise with
    | some ss => exact known.orElse (drains_ofList loop _ ss) (fits_ofList loop _ ss)
    | none => exact known.fallFrom
  | .caseOf p c branches otherwise => by
    rw [ofStmt_caseOf]
    let x : Block := ⟨.branch, some (.caseOf p c branches otherwise), p⟩
    have test : (decision n x).Drains n loop (some n) := drains_decision n x
    have known := drains_ofBranches loop n _ branches test
    cases otherwise with
    | some ss => exact known.orElse (drains_ofList loop _ ss) (fits_ofList loop _ ss)
    | none => exact known.fallFrom
  | .forLoop _ _ _ _ _ body => by
    rw [ofStmt]
    exact (drains_ofList _ (n + 2) body).testFirst (fits_ofList _ (n + 2) body)
  | .whileLoop _ _ body => by
    rw [ofStmt]
    exact (drains_ofList _ (n + 2) body).testFirst (fits_ofList _ (n + 2) body)
  | .repeatLoop _ body _ => by
    rw [ofStmt]
    exact (drains_ofList _ (n + 3) body).testLast (fits_ofList _ (n + 3) body)
  | .region _ _ [] => drains_single n _
  | .region _ _ (first :: rest) => by
    rw [ofStmt]
    exact drains_ofTail loop n _ rest (drains_ofStmt loop n first)
  | .leave _ _ => drains_leave n _
  | .exitLoop _ => drains_jump n _ fun _ => .inr rfl
  | .nextPass _ => drains_jump n _ fun _ => .inl rfl
  | .assignment .. | .call .. | .invoke .. | .empty _ | .goto .. | .label .. => drains_single n _

theorem drains_ofList (loop : Option Loop) (n : Nat) : ∀ ss, (ofList loop n ss).Drains n loop none
  | [] => drains_single n _
  | s :: ss => by
    rw [ofList]
    exact drains_ofTail loop n _ ss (drains_ofStmt loop n s)

theorem drains_ofTail (loop : Option Loop) (n : Nat) (done : Fragment) :
    ∀ ss, done.Drains n loop none → (ofTail loop n done ss).Drains n loop none
  | [], h => h
  | s :: ss, h => by
    rw [ofTail]
    exact drains_ofTail loop n _ ss (h.andThen (drains_ofStmt loop _ s) (fits_ofStmt loop _ s))

theorem drains_ofElsifs (loop : Option Loop) (n source : Nat) (done : Fragment) :
    ∀ bs, done.Drains n loop (some source) →
      (ofElsifs loop n source done bs).1.Drains n loop (some (ofElsifs loop n source done bs).2)
  | [], h => h
  | .mk p c body :: bs, h => by
    rw [ofElsifs]
    refine drains_ofElsifs loop n _ _ bs ?_
    have length (x : Block) : n + (done.addTest source (n + done.blocks.length) x).blocks.length =
        n + done.blocks.length + 1 := by
      simp [Fragment.addTest, Nat.add_assoc]
    refine h.addTest.orElse ?_ ?_
    · rw [length]
      exact drains_ofList loop _ body
    · rw [length]
      exact fits_ofList loop _ body

theorem drains_ofBranches (loop : Option Loop) (n : Nat) (done : Fragment) :
    ∀ bs, done.Drains n loop (some n) → (ofBranches loop n done bs).Drains n loop (some n)
  | [], h => h
  | .mk _ _ body :: bs, h => by
    rw [ofBranches]
    exact drains_ofBranches loop n _ bs
      (h.orElse (drains_ofList loop _ body) (fits_ofList loop _ body))

end

end Fragment

end Plc.Flow

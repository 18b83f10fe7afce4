/-
Walks with a stack.

An `Anatomy` says of which parts a node is made.  A walk takes a node from the top of a stack and puts
the parts of the node there, the first on top, until the stack is empty.

* `Anatomy.walk` — the nodes on a stack and all nodes below them, each before its parts;
* `Anatomy.flatMap_walk` — a function that takes a node apart is told by a walk;
* `Anatomy.placed` — nodes that know their places, by which equal ones differ;
* `Anatomy.within` — nodes that know the nodes around them.
-/
namespace Plc

/-- The sizes of some nodes together. -/
def totalSize {α : Type} (size : α → Nat) (xs : List α) : Nat :=
  xs.foldr (fun a n => size a + n) 0

section

variable {α β : Type} (size : α → Nat)

@[simp] theorem totalSize_nil : totalSize size [] = 0 := rfl

@[simp] theorem totalSize_cons (a : α) (xs : List α) :
    totalSize size (a :: xs) = size a + totalSize size xs := rfl

@[simp] theorem totalSize_append (xs ys : List α) :
    totalSize size (xs ++ ys) = totalSize size xs + totalSize size ys := by
  induction xs with
  | nil => rw [List.nil_append, totalSize_nil, Nat.zero_add]
  | cons a xs ih => rw [List.cons_append, totalSize_cons, ih, totalSize_cons, Nat.add_assoc]

@[simp] theorem totalSize_reverse (xs : List α) :
    totalSize size xs.reverse = totalSize size xs := by
  induction xs with
  | nil => rfl
  | cons a xs ih => simp [ih, Nat.add_comm]

theorem totalSize_map (f : β → α) (xs : List β) :
    totalSize size (xs.map f) = totalSize (fun b => size (f b)) xs :=
  List.foldr_map

theorem totalSize_length (f : β → List α) (xs : List β) :
    totalSize (fun b => (f b).length) xs = (xs.flatMap f).length := by
  induction xs with
  | nil => rfl
  | cons b xs ih => rw [totalSize_cons, ih, List.flatMap_cons, List.length_append]

end

/-- Of which parts a node is made. -/
structure Anatomy (α : Type) where
  parts : α → List α
  /-- By some measure, a node is larger than its parts together. -/
  measured : ∃ size : α → Nat, ∀ a, totalSize size (parts a) < size a

namespace Anatomy

variable {α β : Type}

/-- Parts by which all nodes below a node are listed. -/
def ofAll (parts all : α → List α) (h : ∀ a, all a = a :: (parts a).flatMap all) : Anatomy α where
  parts
  measured := by
    refine ⟨fun a => (all a).length, fun a => ?_⟩
    have more : (all a).length = ((parts a).flatMap all).length + 1 := by
      rw [h a, List.length_cons]
    rw [totalSize_length]
    exact Nat.lt_of_lt_of_eq (Nat.lt_succ_self _) more.symm

variable (t : Anatomy α)

/-- A measure by which a node is larger than its parts together. -/
noncomputable def size : α → Nat :=
  t.measured.choose

theorem size_parts (a : α) : totalSize t.size (t.parts a) < t.size a :=
  t.measured.choose_spec a

theorem size_lt {a b : α} (h : b ∈ t.parts a) : t.size b < t.size a := by
  obtain ⟨before, after, eq⟩ := List.append_of_mem h
  have smaller := t.size_parts a
  rw [eq, totalSize_append, totalSize_cons] at smaller
  omega

/-- What is passed on from the parts of a node to the node holds of every node. -/
theorem induction {P : α → Prop} (step : ∀ a, (∀ b ∈ t.parts a, P b) → P a) (a : α) : P a :=
  step a fun b h =>
    have := t.size_lt h
    induction step b
termination_by t.size a

/-! ### Walks -/

/-- The nodes on a stack and all nodes below them.  The parts of a node go on top of what waits on the
stack. -/
def walk : List α → List α
  | [] => []
  | a :: stack => a :: walk (t.parts a ++ stack)
termination_by stack => totalSize t.size stack
decreasing_by
  rw [totalSize_append, totalSize_cons]
  exact Nat.add_lt_add_right (t.size_parts a) _

@[simp] theorem walk_nil : t.walk [] = [] := by
  rw [walk]

theorem walk_cons (a : α) (stack : List α) :
    t.walk (a :: stack) = a :: t.walk (t.parts a ++ stack) := by
  rw [walk]

/-- The nodes below what waits come after all others. -/
theorem walk_append (stack waiting : List α) :
    t.walk (stack ++ waiting) = t.walk stack ++ t.walk waiting := by
  fun_induction t.walk stack with
  | case1 => rfl
  | case2 a stack ih => rw [List.cons_append, walk_cons, ← List.append_assoc, ih, List.cons_append]

theorem walk_singleton (a : α) : t.walk [a] = a :: t.walk (t.parts a) := by
  rw [walk_cons, List.append_nil]

/-- A function that makes something of a node itself, and then of its parts, makes it of the nodes of a
walk, one after another. -/
theorem flatMap_walk {f own : α → List β} (h : ∀ a, f a = own a ++ (t.parts a).flatMap f)
    (stack : List α) : (t.walk stack).flatMap own = stack.flatMap f := by
  fun_induction t.walk stack with
  | case1 => rfl
  | case2 a stack ih =>
    rw [List.flatMap_cons, ih, List.flatMap_append, List.flatMap_cons, h a, List.append_assoc]

/-- What lists a node and then all nodes below its parts is the walk. -/
theorem walk_eq {all : α → List α} (h : ∀ a, all a = a :: (t.parts a).flatMap all)
    (stack : List α) : t.walk stack = stack.flatMap all := by
  have each : (t.walk stack).flatMap (fun a => [a]) = stack.flatMap all := t.flatMap_walk h stack
  rwa [List.flatMap_singleton'] at each

/-! ### Nodes that know their places -/

/-- The way down to a node: which part is taken at each step, the last step first. -/
abbrev Place := List Nat

/-- Some parts from the `k`-th on, with their places in a node. -/
def placeFrom (p : Place) (k : Nat) (xs : List α) : List (Place × α) :=
  (xs.zipIdx k).map fun x => (x.2 :: p, x.1)

@[simp] theorem placeFrom_nil (p : Place) (k : Nat) : placeFrom p k ([] : List α) = [] := rfl

@[simp] theorem placeFrom_cons (p : Place) (k : Nat) (x : α) (xs : List α) :
    placeFrom p k (x :: xs) = (k :: p, x) :: placeFrom p (k + 1) xs := rfl

theorem map_snd_placeFrom (p : Place) (k : Nat) (xs : List α) :
    (placeFrom p k xs).map (·.2) = xs := by
  induction xs generalizing k with
  | nil => rfl
  | cons x xs ih => rw [placeFrom_cons, List.map_cons, ih]

/-- Nodes with their places. -/
def placed : Anatomy (Place × α) where
  parts x := placeFrom x.1 0 (t.parts x.2)
  measured := by
    refine ⟨fun x => t.size x.2, fun x => ?_⟩
    have same := totalSize_map t.size Prod.snd (placeFrom x.1 0 (t.parts x.2))
    rw [← same, map_snd_placeFrom]
    exact t.size_parts x.2

/-- A walk that notes the places goes the same way. -/
theorem map_snd_walk_placed (stack : List (Place × α)) :
    (t.placed.walk stack).map (·.2) = t.walk (stack.map (·.2)) := by
  fun_induction t.placed.walk stack with
  | case1 => rw [List.map_nil, walk_nil]
  | case2 x stack ih =>
    rw [List.map_cons, ih, List.map_cons, walk_cons, List.map_append]
    congr 3
    exact map_snd_placeFrom x.1 0 (t.parts x.2)

/-- The node at a place below a node. -/
def at? (t : Anatomy α) (a : α) : Place → Option α
  | [] => some a
  | i :: p => (t.at? a p).bind fun b => (t.parts b)[i]?

/-! ### Nodes that know what is around them -/

/-- Nodes with the nodes around them, the innermost first. -/
def within : Anatomy (List α × α) where
  parts x := (t.parts x.2).map fun a => (x.2 :: x.1, a)
  measured := by
    refine ⟨fun x => t.size x.2, fun x => ?_⟩
    rw [totalSize_map]
    exact t.size_parts x.2

end Anatomy

end Plc

/-
A table of scopes is a stack of scopes.

Scopes that have been left stay in the table, but no name leads there.  Going outwards from a scope
one comes to the scopes around it, each once, and a name means the symbol of the first of these that
has one; this can be said without going there, since every scope around that has a symbol of the name
is around that one, too.

What the current scope and those around it define is a stack of frames, and every operation does to
it what it would do to a stack: a scope is entered by pushing a frame and left by popping it, a symbol
is defined in the top frame, and a name means the first symbol from the top that has it.

* `Scopes.Around` — the scopes around a scope, itself included;
* `Scopes.IsInnermost` — the symbol of a name in the innermost scope that has one;
* `IsNested.lookup_eq_some_iff`, `IsNested.lookup_eq_none_iff` — what is found under a name;
* `Frames.step`, `Frames.after` — the operations on a stack;
* `Scopes.frames` — the stack of a table;
* `IsNested.frames_after` — the two go along with each other, however often and in whatever order.
-/
import Plc.Proofs.Scope.Step
import Mathlib.Logic.Relation

namespace Plc

namespace Scopes

open Relation

variable {t t' : Scopes} {i j k count : Nat} {x : Symbol} {name : String}

/-! ### Scopes around a scope -/

/-- The second scope is the first one or stands around it. -/
def Around (t : Scopes) : Nat → Nat → Prop :=
  ReflTransGen fun i j => (t.scopeAt i).parent = some j

theorem around_iff : t.Around i j ↔ i = j ∨ ∃ p, (t.scopeAt i).parent = some p ∧ t.Around p j :=
  ReflTransGen.cases_head_iff

theorem IsNested.around_le (h : t.IsNested) (lt : i < t.list.length) (around : t.Around i j) :
    j ≤ i := by
  induction around with
  | refl => exact Nat.le_refl i
  | tail _ parent le =>
    exact Nat.le_of_lt (Nat.lt_of_lt_of_le (h.parent_lt (Nat.lt_of_le_of_lt le lt) parent) le)

/-- Scopes that are around each other are the same. -/
theorem IsNested.around_antisymm (h : t.IsNested) (lt : i < t.list.length) (out : t.Around i j)
    (back : t.Around j i) : i = j := by
  have le := h.around_le lt out
  exact Nat.le_antisymm (h.around_le (Nat.lt_of_le_of_lt le lt) back) le

/-- Scopes that have the same scopes around them have the same ones further out, too. -/
theorem Around.congr (h : t.Around i j)
    (same : ∀ k, t.Around i k → (t'.scopeAt k).parent = (t.scopeAt k).parent) : t'.Around i j := by
  induction h with
  | refl => exact .refl
  | tail before parent ih => exact ih.tail ((same _ before).trans parent)

/-! ### Going outwards -/

theorem enclosing_of_parent_none (parent : (t.scopeAt i).parent = none) :
    t.enclosing (count + 1) i = [i] := by
  rw [enclosing, parent]

theorem enclosing_of_parent_some {p : Nat} (parent : (t.scopeAt i).parent = some p) :
    t.enclosing (count + 1) i = i :: t.enclosing count p := by
  rw [enclosing, parent]

theorem IsNested.mem_enclosing (h : t.IsNested) (lt : i < t.list.length) (enough : i < count) :
    j ∈ t.enclosing count i ↔ t.Around i j := by
  induction i using Nat.strongRecOn generalizing count with
  | ind i ih =>
    obtain ⟨count, rfl⟩ : ∃ n, count = n + 1 := ⟨count - 1, by omega⟩
    rw [around_iff]
    cases parent : (t.scopeAt i).parent with
    | none => simp [enclosing_of_parent_none parent, eq_comm]
    | some p =>
      have below := h.parent_lt lt parent
      rw [enclosing_of_parent_some parent, List.mem_cons,
        ih p below (Nat.lt_trans below lt) (by omega)]
      simp [eq_comm]

/-- The first scope outwards with a property is the one that all others are around. -/
theorem IsNested.find?_enclosing (h : t.IsNested) (p : Nat → Bool) (lt : i < t.list.length)
    (enough : i < count) : (t.enclosing count i).find? p = some j ↔
      t.Around i j ∧ p j = true ∧ ∀ k, t.Around i k → p k = true → t.Around j k := by
  induction i using Nat.strongRecOn generalizing count with
  | ind i ih =>
    obtain ⟨count, rfl⟩ : ∃ n, count = n + 1 := ⟨count - 1, by omega⟩
    cases has : p i with
    | true =>
      -- every scope around is around this one
      have found : (t.enclosing (count + 1) i).find? p = some i := List.find?_cons_of_pos has
      rw [found, Option.some.injEq]
      constructor
      · rintro rfl
        exact ⟨.refl, has, fun k around _ => around⟩
      · rintro ⟨around, -, first⟩
        exact h.around_antisymm lt around (first i .refl has)
    | false =>
      -- scopes with the property stand then around the next one outwards, if there is one
      have not (k : Nat) (hk : p k = true) : i ≠ k := by
        rintro rfl
        rw [has] at hk
        cases hk
      have next (k : Nat) (hk : p k = true) :
          t.Around i k ↔ ∃ q, (t.scopeAt i).parent = some q ∧ t.Around q k := by
        rw [around_iff, or_iff_right (not k hk)]
      cases parent : (t.scopeAt i).parent with
      | none =>
        rw [enclosing_of_parent_none parent, List.find?_cons_of_neg (by simp [has]), List.find?_nil]
        refine ⟨nofun, fun ⟨around, hj, _⟩ => ?_⟩
        obtain ⟨q, eq, -⟩ := (next j hj).mp around
        rw [parent] at eq
        cases eq
      | some q =>
        have below := h.parent_lt lt parent
        have step (k : Nat) (hk : p k = true) : t.Around i k ↔ t.Around q k := by
          rw [next k hk, parent]
          simp
        rw [enclosing_of_parent_some parent, List.find?_cons_of_neg (by simp [has]),
          ih q below (Nat.lt_trans below lt) (by omega)]
        constructor
        · rintro ⟨around, hj, first⟩
          exact ⟨(step j hj).mpr around, hj, fun k hk has => first k ((step k has).mp hk) has⟩
        · rintro ⟨around, hj, first⟩
          exact ⟨(step j hj).mp around, hj, fun k hk has => first k ((step k has).mpr hk) has⟩

/-! ### Innermost symbols -/

/-- The symbol has the name and stands in the innermost scope around the current one that has a
symbol of the name. -/
structure IsInnermost (t : Scopes) (name : String) (i : Nat) (x : Symbol) : Prop where
  around : t.Around t.current i
  mem : x ∈ (t.scopeAt i).symbols
  called : x.name = name
  first : ∀ j, t.Around t.current j → (∃ y ∈ (t.scopeAt j).symbols, y.name = name) → t.Around i j

theorem find?_isSome_iff {s : Scope} :
    (s.find? name).isSome = true ↔ ∃ y ∈ s.symbols, y.name = name := by
  simp [Scope.find?]

/-- A name means the symbol of its innermost scope. -/
theorem IsNested.resolves_iff (h : t.IsNested) (mem : x ∈ (t.scopeAt i).symbols) :
    t.Resolves name i x ↔ t.IsInnermost name i x := by
  have place := h.find?_enclosing (j := i) (fun j => ((t.scopeAt j).find? name).isSome) h.current
    h.current
  simp only [find?_isSome_iff] at place
  constructor
  · rintro ⟨resolves, called⟩
    obtain ⟨around, -, first⟩ := place.mp resolves
    exact ⟨around, mem, called, first⟩
  · rintro ⟨around, -, called, first⟩
    exact ⟨place.mpr ⟨around, ⟨x, mem, called⟩, first⟩, called⟩

theorem IsNested.lookup_eq_some_iff (h : t.IsNested) :
    t.lookup name = some x ↔ ∃ i, t.IsInnermost name i x := by
  rw [Scopes.lookup_eq_some_iff h.distinct]
  constructor
  · rintro ⟨i, resolves, mem⟩
    exact ⟨i, (h.resolves_iff mem).mp resolves⟩
  · rintro ⟨i, innermost⟩
    exact ⟨i, (h.resolves_iff innermost.mem).mpr innermost, innermost.mem⟩

theorem IsNested.lookup_eq_none_iff (h : t.IsNested) :
    t.lookup name = none ↔ ∀ i, t.Around t.current i → ∀ x ∈ (t.scopeAt i).symbols, x.name ≠ name := by
  have place : t.lookup name = none ↔ t.whereFrom? t.current name = none := by
    unfold lookup lookupFrom
    cases found : t.whereFrom? t.current name with
    | none => simp
    | some j =>
      have some := List.find?_some found
      rw [Option.isSome_iff_exists] at some
      obtain ⟨y, eq⟩ := some
      simp [eq]
  rw [place, whereFrom?, List.find?_eq_none]
  simp only [h.mem_enclosing h.current h.current, find?_isSome_iff, not_exists, not_and]

end Scopes

/-! ### Stacks of frames -/

/-- The symbols of some scopes, the innermost scope first. -/
abbrev Frames := List (List Symbol)

namespace Frames

/-- The symbol of a name in one frame. -/
def find? (f : List Symbol) (name : String) : Option Symbol :=
  List.find? (·.name == name) f

/-- The first symbol of a name, from the top of the stack. -/
def lookup (fs : Frames) (name : String) : Option Symbol :=
  fs.findSome? (find? · name)

/-- Changes the first symbol of a name, from the top of the stack. -/
def mark (name : String) (g : Symbol → Symbol) : Frames → Frames
  | [] => []
  | f :: fs =>
    if (find? f name).isSome then (f.map fun x => if x.name == name then g x else x) :: fs
    else f :: mark name g fs

/-- Adds a symbol to the top frame, unless its name is taken there. -/
def define (s : Symbol) : Frames → Option Diagnostic × Frames
  | [] => (none, [])
  | f :: fs =>
    match find? f s.name with
    | some earlier => (some ⟨.duplicateDefinition s.name, s.span, .error, some earlier.span⟩, f :: fs)
    | none =>
      (((lookup fs s.name).filter fun x => s.kind.holdsValue && x.kind.holdsValue).map fun x =>
        ⟨.shadowedVariable s.name, s.span, .hint, some x.span⟩, (f ++ [s]) :: fs)

/-- Takes the top frame away; the last one is kept. -/
def pop : Frames → Frames
  | _ :: f :: fs => f :: fs
  | fs => fs

/-- The stack after an operation. -/
def step (fs : Frames) : Scopes.Op → Frames
  | .define s => (define s fs).2
  | .enter _ => [] :: fs
  | .exit => pop fs
  | .markUsed name => mark name ({ · with used := true }) fs
  | .markAssigned name => mark name ({ · with assigned := true }) fs
  | .lookup _ | .unused _ => fs

/-- The stack after some operations. -/
def after (fs : Frames) (ops : List Scopes.Op) : Frames :=
  ops.foldl step fs

end Frames

namespace Scopes

variable {t t' : Scopes} {i j k count count' : Nat} {x s : Symbol} {name : String} {ops : List Op}

/-- The frames of a scope and of those around it. -/
def framesFrom (t : Scopes) (i : Nat) : Frames :=
  (t.enclosing t.list.length i).map fun j => (t.scopeAt j).symbols

/-- The frames of the current scope and of those around it. -/
def frames (t : Scopes) : Frames :=
  t.framesFrom t.current

/-! ### The scopes outwards -/

/-- Scopes further on make no difference to what is around a scope, nor does it how far one is
allowed to go, if that is far enough. -/
theorem IsNested.enclosing_eq (h : t.IsNested) (lt : i < t.list.length)
    (same : ∀ k ≤ i, (t'.scopeAt k).parent = (t.scopeAt k).parent) (enough : i < count)
    (enough' : i < count') : t'.enclosing count' i = t.enclosing count i := by
  induction i using Nat.strongRecOn generalizing count count' with
  | ind i ih =>
    obtain ⟨count, rfl⟩ : ∃ n, count = n + 1 := ⟨count - 1, by omega⟩
    obtain ⟨count', rfl⟩ : ∃ n, count' = n + 1 := ⟨count' - 1, by omega⟩
    have here := same i (Nat.le_refl i)
    cases parent : (t.scopeAt i).parent with
    | none => rw [enclosing_of_parent_none parent, enclosing_of_parent_none (here.trans parent)]
    | some p =>
      have below := h.parent_lt lt parent
      have further : t'.enclosing count' p = t.enclosing count p :=
        ih p below (Nat.lt_trans below lt) (fun k le => same k (by omega)) (by omega) (by omega)
      rw [enclosing_of_parent_some parent, enclosing_of_parent_some (here.trans parent), further]

/-- Going outwards, one comes to earlier and earlier scopes. -/
theorem IsNested.pairwise_enclosing (h : t.IsNested) (lt : i < t.list.length) (count : Nat) :
    (t.enclosing count i).Pairwise (· > ·) ∧ ∀ k ∈ t.enclosing count i, k ≤ i := by
  induction count generalizing i with
  | zero => exact ⟨.nil, nofun⟩
  | succ count ih =>
    cases parent : (t.scopeAt i).parent with
    | none =>
      rw [enclosing_of_parent_none parent]
      exact ⟨List.pairwise_singleton _ _, fun k hk => Nat.le_of_eq (List.mem_singleton.mp hk)⟩
    | some p =>
      have below := h.parent_lt lt parent
      obtain ⟨pairwise, le⟩ := ih (Nat.lt_trans below lt)
      rw [enclosing_of_parent_some parent]
      refine ⟨.cons (fun k hk => Nat.lt_of_le_of_lt (le k hk) below) pairwise, fun k hk => ?_⟩
      rcases List.mem_cons.mp hk with rfl | hk
      · exact Nat.le_refl _
      · exact Nat.le_trans (le k hk) (Nat.le_of_lt below)

/-- The frames of a scope are its own and those of the scope around it. -/
theorem IsNested.framesFrom_eq (h : t.IsNested) (lt : i < t.list.length) :
    t.framesFrom i = (t.scopeAt i).symbols ::
      match (t.scopeAt i).parent with
      | some p => t.framesFrom p
      | none => [] := by
  obtain ⟨count, eq⟩ : ∃ n, t.list.length = n + 1 := ⟨t.list.length - 1, by omega⟩
  unfold framesFrom
  cases parent : (t.scopeAt i).parent with
  | none =>
    rw [eq, enclosing_of_parent_none parent]
    rfl
  | some p =>
    have below := h.parent_lt lt parent
    have same : t.enclosing count p = t.enclosing t.list.length p :=
      h.enclosing_eq (Nat.lt_trans below lt) (fun _ _ => rfl) (Nat.lt_trans below lt) (by omega)
    dsimp only
    rw [← same, eq, enclosing_of_parent_some parent, List.map_cons]

/-- Tables whose scopes stand alike and hold the same symbols have the same frames. -/
theorem IsNested.framesFrom_congr (h : t.IsNested) (lt : i < t.list.length)
    (length : t.list.length ≤ t'.list.length) (same : ∀ k ≤ i, t'.scopeAt k = t.scopeAt k) :
    t'.framesFrom i = t.framesFrom i := by
  unfold framesFrom
  rw [h.enclosing_eq lt (fun k le => congrArg Scope.parent (same k le)) lt
    (Nat.lt_of_lt_of_le lt length)]
  refine List.map_congr_left fun k hk => ?_
  rw [same k ((h.pairwise_enclosing lt _).2 k hk)]

/-! ### What is found -/

theorem find?_bind_eq_findSome? {α β : Type} (f : α → Option β) (xs : List α) :
    (xs.find? fun a => (f a).isSome).bind f = xs.findSome? f := by
  induction xs with
  | nil => rfl
  | cons a xs ih =>
    rw [List.find?_cons, List.findSome?_cons]
    cases found : f a with
    | none => exact ih
    | some b => exact found

theorem lookupFrom_eq (t : Scopes) (i : Nat) (name : String) :
    t.lookupFrom i name = Frames.lookup (t.framesFrom i) name := by
  unfold lookupFrom whereFrom? Frames.lookup framesFrom
  rw [find?_bind_eq_findSome?, List.findSome?_map]
  rfl

/-- A name means what it means on the stack. -/
theorem lookup_eq_frames (t : Scopes) (name : String) :
    t.lookup name = Frames.lookup t.frames name :=
  t.lookupFrom_eq t.current name

/-! ### Steps on the stack -/

/-- The frames of the scope around, if there is one. -/
def outerFrames (t : Scopes) : Frames :=
  match (t.scopeAt t.current).parent with
  | some p => t.framesFrom p
  | none => []

theorem IsNested.frames_eq (h : t.IsNested) :
    t.frames = (t.scopeAt t.current).symbols :: t.outerFrames :=
  h.framesFrom_eq h.current

theorem IsNested.frames_define (h : t.IsNested) (s : Symbol) :
    (t.define s).1 = (Frames.define s t.frames).1 ∧
      (t.define s).2.frames = (Frames.define s t.frames).2 := by
  have nested := h.define s
  have outer : (t.scope.parent.bind fun p => t.lookupFrom p s.name) =
      Frames.lookup t.outerFrames s.name := by
    unfold outerFrames scope
    cases (t.scopeAt t.current).parent with
    | none => rfl
    | some p => exact t.lookupFrom_eq p s.name
  have top : Frames.find? (t.scopeAt t.current).symbols s.name = t.scope.find? s.name := rfl
  rw [h.frames_eq, Frames.define, top]
  unfold Scopes.define at nested ⊢
  cases found : t.scope.find? s.name with
  | some y => exact ⟨rfl, h.frames_eq⟩
  | none =>
    rw [found] at nested
    have here := scopeAt_modifyAt h.current fun c => { c with symbols := c.symbols ++ [s] }
    dsimp only at nested ⊢
    refine ⟨by rw [outer], ?_⟩
    rw [nested.frames_eq]
    have current : (t.modifyAt t.current fun c => { c with symbols := c.symbols ++ [s] }).current =
        t.current := rfl
    refine congrArg₂ List.cons ?_ ?_
    · rw [current, here, if_pos rfl]
    · unfold outerFrames
      rw [current, here, if_pos rfl]
      dsimp only
      cases parent : (t.scopeAt t.current).parent with
      | none => rfl
      | some p =>
        -- the scope around comes before the current one, and so do those around it
        have below := h.parent_lt h.current parent
        refine h.framesFrom_congr (Nat.lt_trans below h.current)
          (Nat.le_of_eq (List.length_modify ..).symm) fun k le => ?_
        rw [here, if_neg (by omega)]

theorem IsNested.frames_enter (h : t.IsNested) (name : String) :
    (t.enter name).frames = [] :: t.frames := by
  have current := h.current
  have length := t.length_enter name
  rw [(h.enter name).frames_eq]
  have place : (t.enter name).current = t.list.length := rfl
  unfold outerFrames
  rw [place, scopeAt_enter, if_pos rfl]
  dsimp only
  rw [h.framesFrom_congr current (by omega) fun k le => by rw [scopeAt_enter, if_neg (by omega)]]
  rfl

theorem IsNested.frames_exit (h : t.IsNested) : t.exit.frames = Frames.pop t.frames := by
  have place : t.exit.current = (t.scopeAt t.current).parent.getD t.current := rfl
  have same (i : Nat) (lt : i < t.list.length) : t.exit.framesFrom i = t.framesFrom i :=
    h.framesFrom_congr lt (Nat.le_refl _) fun _ _ => rfl
  unfold frames
  rw [h.framesFrom_eq h.current, place]
  cases parent : (t.scopeAt t.current).parent with
  | none =>
    rw [Option.getD_none, same _ h.current, h.framesFrom_eq h.current, parent]
    rfl
  | some p =>
    have lt := Nat.lt_trans (h.parent_lt h.current parent) h.current
    rw [Option.getD_some, same p lt]
    show t.framesFrom p = Frames.pop (_ :: t.framesFrom p)
    rw [h.framesFrom_eq lt]
    rfl

/-- On a row of different scopes, only the first that has the name is changed. -/
theorem mark_map_symbols (g : Symbol → Symbol) {is : List Nat} (distinct : is.Pairwise (· > ·)) :
    Frames.mark name g (is.map fun i => (t.scopeAt i).symbols) =
      is.map fun i => (t.scopeAt i).symbols.map fun x =>
        if is.find? (fun j => ((t.scopeAt j).find? name).isSome) = some i ∧ x.name = name then g x
        else x := by
  induction distinct with
  | nil => rfl
  | @cons i is later _ ih =>
    rw [List.map_cons, List.map_cons, Frames.mark, List.find?_cons]
    have same : Frames.find? (t.scopeAt i).symbols name = (t.scopeAt i).find? name := rfl
    rw [same]
    cases has : ((t.scopeAt i).find? name).isSome with
    | true =>
      rw [if_pos rfl]
      refine congrArg₂ List.cons ?_ ?_
      · simp
      · -- the scopes further out are other ones, so that none of their symbols is changed
        refine List.map_congr_left fun k hk => ?_
        have other : i ≠ k := Nat.ne_of_gt (later k hk)
        simp [other]
    | false =>
      -- without the name here, the first scope that has it is one of the later ones
      rw [if_neg Bool.false_ne_true, ih]
      refine congrArg₂ List.cons ?_ rfl
      have other : is.find? (fun j => ((t.scopeAt j).find? name).isSome) ≠ some i := fun eq =>
        Nat.lt_irrefl i (later i (List.mem_of_find?_eq_some eq))
      simp [other]

theorem IsNested.frames_mark (h : t.IsNested) (name : String) (g : Symbol → Symbol) :
    (t.mark name g).frames = Frames.mark name g t.frames := by
  rw [mark_eq]
  unfold frames framesFrom
  rw [mark_map_symbols g (h.pairwise_enclosing h.current _).1]
  have length : (t.mapSymbols fun i x => if t.Resolves name i x then g x else x).list.length =
      t.list.length := List.length_mapIdx
  rw [length]
  show List.map _ ((t.mapSymbols _).enclosing t.list.length t.current) = _
  rw [enclosing_mapSymbols]
  refine List.map_congr_left fun i _ => ?_
  rw [scopeAt_mapSymbols]
  rfl

theorem IsNested.frames_step (h : t.IsNested) : ∀ op, (t.step op).frames = Frames.step t.frames op
  | .define s => (h.frames_define s).2
  | .enter name => h.frames_enter name
  | .exit => h.frames_exit
  | .markUsed name => h.frames_mark name _
  | .markAssigned name => h.frames_mark name _
  | .lookup _ | .unused _ => rfl

/-- The operations do to the frames what they do to a stack. -/
theorem IsNested.frames_after (h : t.IsNested) :
    (t.after ops).frames = Frames.after t.frames ops := by
  induction ops generalizing t with
  | nil => rfl
  | cons op ops ih =>
    rw [after_cons, ih (h.step op), h.frames_step]
    rfl

end Scopes

end Plc

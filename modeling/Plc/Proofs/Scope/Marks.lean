/-
Marks on the symbols of a table.

Marking a name sets a flag of the symbol that the name means, and changes nothing else: scopes keep
their places and names keep their meaning, so that a table may be marked many times and in any
order.

* `Scopes.Resolves` — a name means a symbol of a scope, see `lookup_eq_some_iff`;
* `Scopes.marked` — a table with all the symbols marked that some names mean;
* `markUsed_eq`, `markAssigned_eq`, `marked_marked` — one mark, and one marking after another;
* `lookup_marked` — what is looked up is the same but for its flags.
-/
import Plc.Scope
import Mathlib.Data.List.Nodup

namespace Plc

namespace Symbol

/-- The symbol with its flags put down. -/
def unmarked (x : Symbol) : Symbol :=
  { x with used := false, assigned := false }

/-- The symbol with some flags put up; those that are up stay so. -/
def flagged (x : Symbol) (used assigned : Bool) : Symbol :=
  { x with used := x.used || used, assigned := x.assigned || assigned }

@[simp] theorem flagged_name (x : Symbol) (used assigned : Bool) :
    (x.flagged used assigned).name = x.name := rfl

theorem flagged_flagged (x : Symbol) (used assigned used' assigned' : Bool) :
    (x.flagged used assigned).flagged used' assigned' =
      x.flagged (used || used') (assigned || assigned') := by
  simp only [flagged, Bool.or_assoc]

end Symbol

namespace Scopes

/-- The table with every symbol changed; the change may depend on the place of its scope. -/
def mapSymbols (t : Scopes) (f : Nat → Symbol → Symbol) : Scopes :=
  { t with list := t.list.mapIdx fun i s => { s with symbols := s.symbols.map (f i) } }

/-- The table with all flags put down. -/
def unmarked (t : Scopes) : Scopes :=
  t.mapSymbols fun _ => Symbol.unmarked

/-- The symbol at a place of a scope. -/
def symbolAt? (t : Scopes) (i k : Nat) : Option Symbol :=
  (t.scopeAt i).symbols[k]?

/-- In the current scope the name means what the scope at `i` calls so, and the symbol is called
so. -/
def Resolves (t : Scopes) (name : String) (i : Nat) (x : Symbol) : Prop :=
  t.whereFrom? t.current name = some i ∧ x.name = name

instance (t : Scopes) (name : String) (i : Nat) (x : Symbol) : Decidable (t.Resolves name i x) :=
  inferInstanceAs (Decidable (_ ∧ _))

/-- The table with the symbols marked as used that some names mean, and those as assigned that some
other names mean. -/
def marked (t : Scopes) (used assigned : List String) : Scopes :=
  t.mapSymbols fun i x => x.flagged (∃ name ∈ used, t.Resolves name i x)
    (∃ name ∈ assigned, t.Resolves name i x)

variable {t : Scopes} {f : Nat → Symbol → Symbol} {name : String} {i k : Nat} {x : Symbol}

/-! ### Changes that keep the names -/

theorem scopeAt_mapSymbols : (t.mapSymbols f).scopeAt i =
    { t.scopeAt i with symbols := (t.scopeAt i).symbols.map (f i) } := by
  unfold scopeAt mapSymbols
  rw [List.getElem?_mapIdx]
  cases t.list[i]? with
  | none => rfl
  | some s => rfl

theorem symbolAt?_mapSymbols : (t.mapSymbols f).symbolAt? i k = (t.symbolAt? i k).map (f i) := by
  unfold symbolAt?
  rw [scopeAt_mapSymbols, List.getElem?_map]

theorem enclosing_mapSymbols (count : Nat) :
    (t.mapSymbols f).enclosing count i = t.enclosing count i := by
  induction count generalizing i with
  | zero => rfl
  | succ count ih =>
    unfold enclosing
    rw [scopeAt_mapSymbols]
    cases (t.scopeAt i).parent with
    | none => rfl
    | some p => exact congrArg (i :: ·) ih

section Names

variable (keeps : ∀ i x, (f i x).name = x.name)
include keeps

theorem find?_mapSymbols :
    ((t.mapSymbols f).scopeAt i).find? name = ((t.scopeAt i).find? name).map (f i) := by
  rw [scopeAt_mapSymbols]
  unfold Scope.find?
  rw [List.find?_map]
  congr 2
  funext x
  exact congrArg (· == name) (keeps i x)

theorem whereFrom?_mapSymbols : (t.mapSymbols f).whereFrom? i name = t.whereFrom? i name := by
  unfold whereFrom?
  have length : (t.mapSymbols f).list.length = t.list.length := List.length_mapIdx
  rw [length, enclosing_mapSymbols]
  congr 1
  funext j
  rw [find?_mapSymbols keeps, Option.isSome_map]

theorem lookup_mapSymbols : (t.mapSymbols f).lookup name =
    (t.whereFrom? t.current name).bind fun j => ((t.scopeAt j).find? name).map (f j) := by
  unfold lookup lookupFrom
  have current : (t.mapSymbols f).current = t.current := rfl
  rw [current, whereFrom?_mapSymbols keeps]
  congr 1
  funext j
  exact find?_mapSymbols keeps

end Names

/-! ### What a name means -/

/-- Where no scope has a name twice, to find a symbol under a name is for the name to mean it. -/
theorem lookup_eq_some_iff (distinct : ∀ i, ((t.scopeAt i).symbols.map Symbol.name).Nodup) :
    t.lookup name = some x ↔ ∃ i, t.Resolves name i x ∧ x ∈ (t.scopeAt i).symbols := by
  constructor
  · intro h
    obtain ⟨i, place, found⟩ := Option.bind_eq_some_iff.mp h
    unfold Scope.find? at found
    have called := List.find?_some found
    exact ⟨i, ⟨place, beq_iff_eq.mp called⟩, List.mem_of_find?_eq_some found⟩
  · rintro ⟨i, ⟨place, rfl⟩, mem⟩
    unfold lookup lookupFrom
    rw [place, Option.bind_some, Scope.find?]
    have some : ((t.scopeAt i).symbols.find? (·.name == x.name)).isSome :=
      List.find?_isSome.mpr ⟨x, mem, beq_self_eq_true _⟩
    obtain ⟨y, found⟩ := Option.isSome_iff_exists.mp some
    have called : y.name = x.name := beq_iff_eq.mp (List.find?_some found :)
    rw [found, List.inj_on_of_nodup_map (distinct i) (List.mem_of_find?_eq_some found) mem called]

/-! ### Marks -/

/-- A scope whose symbols are all left as they are is left as it is. -/
theorem mapSymbols_id (h : ∀ i x, f i x = x) : t.mapSymbols f = t := by
  have same : f = fun _ x => x := by
    funext i x
    exact h i x
  subst same
  unfold mapSymbols
  simp only [List.map_id']
  refine congrArg (fun list => { t with list }) (List.ext_getElem? fun i => ?_)
  rw [List.getElem?_mapIdx]
  exact Option.map_id'

theorem mapSymbols_mapSymbols (g : Nat → Symbol → Symbol) :
    (t.mapSymbols f).mapSymbols g = t.mapSymbols fun i x => g i (f i x) := by
  unfold mapSymbols
  simp only [List.mapIdx_mapIdx, Function.comp_def, List.map_map]

/-- A mark changes the symbols that the name means. -/
theorem mark_eq (t : Scopes) (name : String) (g : Symbol → Symbol) :
    t.mark name g = t.mapSymbols fun i x => if t.Resolves name i x then g x else x := by
  unfold mark
  cases place : t.whereFrom? t.current name with
  | none =>
    refine (mapSymbols_id fun i x => if_neg ?_).symm
    simp [Resolves, place]
  | some i =>
    refine congrArg (fun list => { t with list }) (List.ext_getElem? fun j => ?_)
    rw [List.getElem?_modify, List.getElem?_mapIdx]
    refine congrArg (fun g => t.list[j]?.map g) (funext fun s => ?_)
    by_cases h : i = j
    · subst h
      rw [if_pos rfl]
      refine congrArg (fun symbols => { s with symbols }) (List.map_congr_left fun x _ => ?_)
      simp [Resolves, place]
    · rw [if_neg h]
      refine congrArg (fun symbols => { s with symbols }) (Eq.symm ?_)
      refine (List.map_congr_left fun x _ => if_neg ?_).trans (List.map_id s.symbols)
      simp [Resolves, place, h]

section

variable {used used' assigned assigned' : List String}

@[simp] theorem marked_nil (t : Scopes) : t.marked [] [] = t := by
  refine mapSymbols_id fun i x => ?_
  simp [Symbol.flagged]

theorem markUsed_eq (t : Scopes) (name : String) : t.markUsed name = t.marked [name] [] := by
  unfold markUsed marked
  rw [mark_eq]
  refine congrArg t.mapSymbols (funext fun i => funext fun x => ?_)
  by_cases h : t.Resolves name i x <;> simp [h, Symbol.flagged]

theorem markAssigned_eq (t : Scopes) (name : String) :
    t.markAssigned name = t.marked [] [name] := by
  unfold markAssigned marked
  rw [mark_eq]
  refine congrArg t.mapSymbols (funext fun i => funext fun x => ?_)
  by_cases h : t.Resolves name i x <;> simp [h, Symbol.flagged]

/-- Names mean the same in a marked table. -/
theorem resolves_marked {x' : Symbol} (called : x'.name = x.name) :
    (t.marked used assigned).Resolves name i x' ↔ t.Resolves name i x := by
  have current : (t.marked used assigned).current = t.current := rfl
  have place : (t.marked used assigned).whereFrom? t.current name = t.whereFrom? t.current name :=
    whereFrom?_mapSymbols fun _ _ => rfl
  rw [Resolves, Resolves, current, place, called]

/-- To mark a table and then again is to mark it once. -/
theorem marked_marked : (t.marked used assigned).marked used' assigned' =
    t.marked (used ++ used') (assigned ++ assigned') := by
  refine (mapSymbols_mapSymbols _).trans (congrArg t.mapSymbols ?_)
  funext i x
  have later (names : List String) (u a : Bool) :
      decide (∃ name ∈ names, (t.marked used assigned).Resolves name i (x.flagged u a)) =
        decide (∃ name ∈ names, t.Resolves name i x) :=
    decide_eq_decide.mpr (by simp only [resolves_marked (x.flagged_name u a)])
  have either (names names' : List String) :
      decide (∃ name ∈ names ++ names', t.Resolves name i x) =
        (decide (∃ name ∈ names, t.Resolves name i x) ||
          decide (∃ name ∈ names', t.Resolves name i x)) := by
    simp only [List.mem_append, or_and_right, exists_or, Bool.decide_or]
  rw [later, later, Symbol.flagged_flagged, either, either]

/-- Which names are marked matters, but not in what order or how often. -/
theorem marked_congr (hu : ∀ name, name ∈ used ↔ name ∈ used')
    (ha : ∀ name, name ∈ assigned ↔ name ∈ assigned') :
    t.marked used assigned = t.marked used' assigned' := by
  unfold marked
  simp only [hu, ha]

/-- What is looked up is the same but for its flags. -/
theorem lookup_marked {β : Type} (g : Option Symbol → β)
    (h : ∀ x, g (some x.unmarked) = g (some x)) (name : String) :
    g ((t.marked used assigned).lookup name) = g (t.lookup name) := by
  have found : (t.marked used assigned).lookup name = _ := lookup_mapSymbols fun _ _ => rfl
  rw [found, lookup, lookupFrom]
  cases t.whereFrom? t.current name with
  | none => rfl
  | some j =>
    rw [Option.bind_some, Option.bind_some]
    cases (t.scopeAt j).find? name with
    | none => rfl
    | some x =>
      -- the two have the same form without their flags
      rw [Option.map_some, ← h, ← h x]
      rfl

/-- Nothing but flags is changed. -/
theorem unmarked_marked : (t.marked used assigned).unmarked = t.unmarked :=
  (mapSymbols_mapSymbols _).trans rfl

theorem symbolAt?_marked (used assigned : List String) (h : t.symbolAt? i k = some x) :
    (t.marked used assigned).symbolAt? i k = some (x.flagged
      (∃ name ∈ used, t.Resolves name i x) (∃ name ∈ assigned, t.Resolves name i x)) := by
  refine symbolAt?_mapSymbols.trans ?_
  rw [h, Option.map_some]

end

/-- A name that is not found means no symbol. -/
theorem not_resolves_of_lookup_eq_none (h : t.lookup name = none) : ¬t.Resolves name i x := by
  rintro ⟨place, -⟩
  have found := List.find?_some (p := fun j => ((t.scopeAt j).find? name).isSome) place
  rw [lookup, lookupFrom, place, Option.bind_some] at h
  rw [h] at found
  cases found

/-- To mark names that are not found changes nothing. -/
theorem marked_of_lookup_eq_none {used assigned : List String}
    (hu : ∀ name ∈ used, t.lookup name = none) (ha : ∀ name ∈ assigned, t.lookup name = none) :
    t.marked used assigned = t := by
  refine mapSymbols_id fun i x => ?_
  have unused : ¬∃ name ∈ used, t.Resolves name i x := by
    rintro ⟨name, mem, resolves⟩
    exact not_resolves_of_lookup_eq_none (hu name mem) resolves
  have unassigned : ¬∃ name ∈ assigned, t.Resolves name i x := by
    rintro ⟨name, mem, resolves⟩
    exact not_resolves_of_lookup_eq_none (ha name mem) resolves
  rw [Symbol.flagged, decide_eq_false unused, decide_eq_false unassigned, Bool.or_false,
    Bool.or_false]

end Scopes

end Plc

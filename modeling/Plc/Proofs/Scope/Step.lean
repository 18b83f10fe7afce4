/-
Steps of a table of scopes.

A table only grows: a step adds a scope, a symbol or a flag, and takes none away.  All scopes but the
outermost one stand after the scope that is around them, so that going outwards comes to an end.

* `Scopes.Op`, `Scopes.step`, `Scopes.after` — what can be done with a table, once or many times;
* `Scopes.IsNested` — how scopes stand in one another, which every step keeps;
* `Scopes.Extends` — a later table has all scopes and symbols of an earlier one.
-/
import Plc.Proofs.Scope.Marks
import Mathlib.Data.List.Nodup
import Mathlib.Logic.Relation

namespace Plc

namespace Symbol

theorem flagged_false (x : Symbol) : x.flagged false false = x := by
  simp [flagged]

@[simp] theorem flagged_span (x : Symbol) (used assigned : Bool) :
    (x.flagged used assigned).span = x.span := rfl

end Symbol

namespace Scopes

open Relation

/-! ### Operations -/

/-- What can be done with a table. -/
inductive Op where
  | define (s : Symbol)
  | enter (name : String)
  | exit
  | markUsed (name : String)
  | markAssigned (name : String)
  | lookup (name : String)
  | unused (withGlobals : Bool)

/-- The table after an operation; only to look at it leaves it as it is. -/
def step (t : Scopes) : Op → Scopes
  | .define s => (t.define s).2
  | .enter name => t.enter name
  | .exit => t.exit
  | .markUsed name => t.markUsed name
  | .markAssigned name => t.markAssigned name
  | .lookup _ | .unused _ => t

/-- The table after some operations. -/
def after (t : Scopes) (ops : List Op) : Scopes :=
  ops.foldl step t

variable {t t' t'' : Scopes} {i j k : Nat} {x s : Symbol} {name : String} {ops more : List Op}

@[simp] theorem after_cons (op : Op) : t.after (op :: ops) = (t.step op).after ops := rfl

theorem after_append : t.after (ops ++ more) = (t.after ops).after more :=
  List.foldl_append

theorem step_markUsed (name : String) : t.step (.markUsed name) = t.marked [name] [] :=
  markUsed_eq t name

theorem step_markAssigned (name : String) : t.step (.markAssigned name) = t.marked [] [name] :=
  markAssigned_eq t name

/-! ### Scopes after a step -/

theorem length_enter (t : Scopes) (name : String) :
    (t.enter name).list.length = t.list.length + 1 :=
  List.length_append

theorem scopeAt_enter (t : Scopes) (name : String) (i : Nat) :
    (t.enter name).scopeAt i =
      if i = t.list.length then { name, parent := some t.current } else t.scopeAt i := by
  unfold enter scopeAt
  split
  · next h =>
    subst h
    simp
  · next h =>
    rcases Nat.lt_or_gt_of_ne h with h | h
    · rw [List.getElem?_append_left h]
    · have length : (t.enter name).list.length ≤ i := by
        rw [length_enter]
        exact h
      rw [List.getElem?_eq_none (Nat.le_of_lt h)]
      exact congrArg (Option.getD · _) (List.getElem?_eq_none length)

theorem scopeAt_modifyAt (h : i < t.list.length) (f : Scope → Scope) (j : Nat) :
    (t.modifyAt i f).scopeAt j = if i = j then f (t.scopeAt j) else t.scopeAt j := by
  unfold modifyAt scopeAt
  rw [List.getElem?_modify]
  split
  · next eq =>
    subst eq
    rw [List.getElem?_eq_getElem h]
    rfl
  · cases t.list[j]? <;> rfl

/-- A symbol is added to the current scope, or nothing changes. -/
theorem define_eq (t : Scopes) (s : Symbol) :
    (∃ y, t.scope.find? s.name = some y ∧
      t.define s = (some ⟨.duplicateDefinition s.name, s.span, .error, some y.span⟩, t)) ∨
    t.scope.find? s.name = none ∧
      (t.define s).2 = t.modifyAt t.current fun c => { c with symbols := c.symbols ++ [s] } := by
  unfold define
  cases t.scope.find? s.name with
  | some y => exact .inl ⟨y, rfl, rfl⟩
  | none => exact .inr ⟨rfl, rfl⟩

/-! ### Nested scopes -/

/-- The first scope is the outermost one, each other scope stands after the one around it, the
current one is among them, and no scope has a name twice. -/
structure IsNested (t : Scopes) : Prop where
  global : (t.scopeAt 0).name = "global" ∧ (t.scopeAt 0).parent = none
  inside : ∀ i, 0 < i → i < t.list.length → ∃ p, p < i ∧ (t.scopeAt i).parent = some p
  current : t.current < t.list.length
  distinct : ∀ i, ((t.scopeAt i).symbols.map Symbol.name).Nodup

theorem isNested_new : ({} : Scopes).IsNested := by
  refine ⟨⟨rfl, rfl⟩, fun i above below => ?_, Nat.one_pos, fun i => ?_⟩
  · exact absurd below (Nat.not_lt.mpr above)
  · cases i <;> exact List.nodup_nil

/-- A scope has the name and the place of the one that it was, and its symbols are called as they
were. -/
theorem IsNested.of_same (h : t.IsNested) (length : t'.list.length = t.list.length)
    (current : t'.current = t.current) (scopes : ∀ i, (t'.scopeAt i).name = (t.scopeAt i).name ∧
      (t'.scopeAt i).parent = (t.scopeAt i).parent)
    (distinct : ∀ i, ((t'.scopeAt i).symbols.map Symbol.name).Nodup) : t'.IsNested := by
  refine ⟨⟨(scopes 0).1.trans h.global.1, (scopes 0).2.trans h.global.2⟩, fun i above below => ?_, ?_,
    distinct⟩
  · obtain ⟨p, hp, parent⟩ := h.inside i above (length ▸ below)
    exact ⟨p, hp, (scopes i).2.trans parent⟩
  · rw [current, length]
    exact h.current

theorem IsNested.marked (h : t.IsNested) (used assigned : List String) :
    (t.marked used assigned).IsNested := by
  refine h.of_same List.length_mapIdx rfl (fun i => ?_) fun i => ?_
  · unfold Scopes.marked
    rw [scopeAt_mapSymbols]
    exact ⟨rfl, rfl⟩
  · unfold Scopes.marked
    rw [scopeAt_mapSymbols, List.map_map]
    exact h.distinct i

theorem IsNested.define (h : t.IsNested) (s : Symbol) : (t.define s).2.IsNested := by
  rcases t.define_eq s with ⟨y, -, eq⟩ | ⟨fresh, eq⟩
  · rw [eq]
    exact h
  · rw [eq]
    refine h.of_same (List.length_modify ..) rfl (fun i => ?_) fun i => ?_
    · rw [scopeAt_modifyAt h.current]
      split <;> exact ⟨rfl, rfl⟩
    · rw [scopeAt_modifyAt h.current]
      split
      · next eq =>
        subst eq
        -- no symbol of the scope has the new name
        refine List.map_append ▸ List.nodup_append.mpr ⟨h.distinct _, List.nodup_singleton _, ?_⟩
        rintro a ha b hb rfl
        obtain ⟨y, hy, rfl⟩ := List.mem_map.mp ha
        obtain called : y.name = s.name := List.mem_singleton.mp hb
        exact absurd (beq_iff_eq.mpr called) (List.find?_eq_none.mp fresh y hy)
      · exact h.distinct i

theorem IsNested.enter (h : t.IsNested) (name : String) : (t.enter name).IsNested := by
  have current := h.current
  have length := t.length_enter name
  refine ⟨?_, fun i above below => ?_, ?_, fun i => ?_⟩
  · rw [scopeAt_enter, if_neg (by omega)]
    exact h.global
  · rw [scopeAt_enter]
    split
    · next last => exact ⟨t.current, last ▸ current, rfl⟩
    · exact h.inside i above (by omega)
  · rw [length]
    exact Nat.lt_succ_self _
  · rw [scopeAt_enter]
    split
    · exact List.nodup_nil
    · exact h.distinct i

/-- The scope around the current one comes before it. -/
theorem IsNested.parent_lt (h : t.IsNested) (lt : i < t.list.length) {p : Nat}
    (parent : (t.scopeAt i).parent = some p) : p < i := by
  rcases Nat.eq_zero_or_pos i with rfl | above
  · rw [h.global.2] at parent
    cases parent
  · obtain ⟨q, below, eq⟩ := h.inside i above lt
    rw [parent] at eq
    cases eq
    exact below

theorem IsNested.exit (h : t.IsNested) : t.exit.IsNested := by
  refine ⟨h.global, h.inside, ?_, h.distinct⟩
  show (t.scope.parent.getD t.current) < t.list.length
  cases parent : t.scope.parent with
  | none => exact h.current
  | some p => exact Nat.lt_trans (h.parent_lt h.current parent) h.current

theorem IsNested.step (h : t.IsNested) : ∀ op, (t.step op).IsNested
  | .define s => h.define s
  | .enter name => h.enter name
  | .exit => h.exit
  | .markUsed name => by
    rw [step_markUsed]
    exact h.marked [name] []
  | .markAssigned name => by
    rw [step_markAssigned]
    exact h.marked [] [name]
  | .lookup _ | .unused _ => h

theorem IsNested.after (h : t.IsNested) : (t.after ops).IsNested := by
  induction ops generalizing t with
  | nil => exact h
  | cons op ops ih => exact ih (h.step op)

/-! ### What is never taken away -/

/-- The second table has every scope of the first one at its place, and every symbol of it at its
place with no flag put down. -/
structure Extends (t t' : Scopes) : Prop where
  length : t.list.length ≤ t'.list.length
  scopes : ∀ i < t.list.length, (t'.scopeAt i).name = (t.scopeAt i).name ∧
    (t'.scopeAt i).parent = (t.scopeAt i).parent
  symbols : ∀ i k x, t.symbolAt? i k = some x →
    ∃ used assigned, t'.symbolAt? i k = some (x.flagged used assigned)

theorem Extends.refl (t : Scopes) : t.Extends t :=
  ⟨Nat.le_refl _, fun _ _ => ⟨rfl, rfl⟩, fun _ _ x h => ⟨false, false, x.flagged_false.symm ▸ h⟩⟩

theorem Extends.trans (h : t.Extends t') (h' : t'.Extends t'') : t.Extends t'' := by
  refine ⟨Nat.le_trans h.length h'.length, fun i lt => ?_, fun i k x found => ?_⟩
  · obtain ⟨name, parent⟩ := h.scopes i lt
    obtain ⟨name', parent'⟩ := h'.scopes i (Nat.lt_of_lt_of_le lt h.length)
    exact ⟨name'.trans name, parent'.trans parent⟩
  · obtain ⟨u, a, found⟩ := h.symbols i k x found
    obtain ⟨u', a', found⟩ := h'.symbols i k _ found
    exact ⟨_, _, x.flagged_flagged u a u' a' ▸ found⟩

theorem extends_marked (t : Scopes) (used assigned : List String) :
    t.Extends (t.marked used assigned) := by
  refine ⟨Nat.le_of_eq List.length_mapIdx.symm, fun i _ => ?_,
    fun i k x found => ⟨_, _, symbolAt?_marked _ _ found⟩⟩
  unfold marked
  rw [scopeAt_mapSymbols]
  exact ⟨rfl, rfl⟩

theorem IsNested.extends_define (h : t.IsNested) (s : Symbol) : t.Extends (t.define s).2 := by
  rcases t.define_eq s with ⟨y, -, eq⟩ | ⟨-, eq⟩
  · rw [eq]
    exact .refl t
  · rw [eq]
    refine ⟨Nat.le_of_eq (List.length_modify ..).symm, fun i _ => ?_, fun i k x found => ⟨false, false, ?_⟩⟩
    · rw [scopeAt_modifyAt h.current]
      split <;> exact ⟨rfl, rfl⟩
    · rw [x.flagged_false, symbolAt?, scopeAt_modifyAt h.current]
      split
      · exact List.getElem?_append_left (List.getElem?_eq_some_iff.mp found).1 ▸ found
      · exact found

theorem extends_enter (t : Scopes) (name : String) : t.Extends (t.enter name) := by
  refine ⟨?_, fun i lt => ?_, fun i k x found => ⟨false, false, ?_⟩⟩
  · rw [length_enter]
    exact Nat.le_succ _
  · rw [scopeAt_enter, if_neg (Nat.ne_of_lt lt)]
    exact ⟨rfl, rfl⟩
  · rw [x.flagged_false, symbolAt?, scopeAt_enter]
    split
    · next last =>
      -- there was no scope at the new place
      unfold symbolAt? scopeAt at found
      rw [last, List.getElem?_eq_none (Nat.le_refl _)] at found
      cases found
    · exact found

theorem IsNested.extends_step (h : t.IsNested) : ∀ op, t.Extends (t.step op)
  | .define s => h.extends_define s
  | .enter name => t.extends_enter name
  | .exit => ⟨Nat.le_refl _, fun _ _ => ⟨rfl, rfl⟩, (Extends.refl t).symbols⟩
  | .markUsed name => by
    rw [step_markUsed]
    exact t.extends_marked [name] []
  | .markAssigned name => by
    rw [step_markAssigned]
    exact t.extends_marked [] [name]
  | .lookup _ | .unused _ => .refl t

/-- No scope and no symbol is ever removed or replaced. -/
theorem IsNested.extends_after (h : t.IsNested) : t.Extends (t.after ops) := by
  induction ops generalizing t with
  | nil => exact .refl t
  | cons op ops ih => exact (h.extends_step op).trans (ih (h.step op))

end Scopes

end Plc

/-
What every run of a table keeps.

Whatever is done with a new table, in whatever order: its scopes are nested, it goes along with a
stack of frames, and nothing that was defined is lost or replaced.  What is done inside of a scope
is over when the scope is left: names mean then what they meant before.

* `Scopes.Balanced` — operations that leave every scope they enter, and no other;
* `IsNested.restored` — a scope that is entered and left, and what was done in between;
* `Scopes.refines_nested_scopes` — all of this, for every run.
-/
import Plc.Proofs.Scope.Frames

namespace Plc

namespace Scopes

variable {t t' : Scopes} {i j k : Nat} {x s : Symbol} {name : String} {ops more : List Op}

/-! ### Names that are taken -/

/-- A name that is defined in a scope is taken there from then on, and the symbol that was defined
first is pointed out. -/
theorem IsNested.define_again (h : t.IsNested) (found : t.symbolAt? i k = some x)
    (there : (t.after more).current = i) (called : s.name = x.name) :
    (t.after more).define s =
      (some ⟨.duplicateDefinition s.name, s.span, .error, some x.span⟩, t.after more) := by
  have later : (t.after more).IsNested := h.after
  have kept : t.Extends (t.after more) := h.extends_after
  obtain ⟨used, assigned, kept⟩ := kept.symbols i k x found
  have mem : x.flagged used assigned ∈ (t.after more).scope.symbols := by
    rw [scope, there]
    exact List.mem_of_getElem? kept
  rcases (t.after more).define_eq s with ⟨y, first, eq⟩ | ⟨fresh, -⟩
  · -- the scope has the name only once
    have same : y = x.flagged used assigned := by
      refine List.inj_on_of_nodup_map (later.distinct (t.after more).current)
        (List.mem_of_find?_eq_some first) mem ?_
      exact (beq_iff_eq.mp (List.find?_some first :)).trans called
    rw [eq, same, Symbol.flagged_span]
  · have other := List.find?_eq_none.mp fresh (x.flagged used assigned) mem
    exact absurd (beq_iff_eq.mpr called.symm) other

/-! ### Marks -/

/-- A mark puts up a flag of the symbol that the name means, and of no other. -/
theorem IsNested.symbolAt?_mark (h : t.IsNested) (found : t.symbolAt? i k = some x) (name : String)
    (g : Symbol → Symbol) :
    (t.IsInnermost name i x → (t.mark name g).symbolAt? i k = some (g x)) ∧
      (¬t.IsInnermost name i x → (t.mark name g).symbolAt? i k = some x) := by
  rw [← h.resolves_iff (List.mem_of_getElem? found), mark_eq, symbolAt?_mapSymbols, found,
    Option.map_some]
  exact ⟨fun means => by rw [if_pos means], fun other => by rw [if_neg other]⟩

/-! ### What is done inside of a scope -/

/-- The operation enters or leaves a scope. -/
def Op.moves : Op → Bool
  | .enter _ | .exit => true
  | _ => false

/-- The operations leave every scope that they enter, and no other. -/
inductive Balanced : List Op → Prop
  | nil : Balanced []
  | stay {op : Op} {ops : List Op} : op.moves = false → Balanced ops → Balanced (op :: ops)
  | nest {name : String} {inner ops : List Op} : Balanced inner → Balanced ops →
    Balanced (.enter name :: (inner ++ .exit :: ops))

/-- The current scope is the same, and no other scope has got more symbols. -/
structure Settled (t t' : Scopes) : Prop where
  current : t'.current = t.current
  sizes : ∀ i < t.list.length, i ≠ t.current →
    (t'.scopeAt i).symbols.length = (t.scopeAt i).symbols.length

theorem settled_marked (t : Scopes) (used assigned : List String) :
    t.Settled (t.marked used assigned) := by
  refine ⟨rfl, fun i _ _ => ?_⟩
  unfold marked
  rw [scopeAt_mapSymbols]
  exact List.length_map _

theorem IsNested.settled_define (h : t.IsNested) (s : Symbol) : t.Settled (t.define s).2 := by
  rcases t.define_eq s with ⟨y, -, eq⟩ | ⟨-, eq⟩
  · rw [eq]
    exact ⟨rfl, fun _ _ _ => rfl⟩
  · rw [eq]
    refine ⟨rfl, fun i _ other => ?_⟩
    rw [scopeAt_modifyAt h.current, if_neg other.symm]

/-- A step that does not move adds symbols to the current scope only. -/
theorem IsNested.settled_step (h : t.IsNested) :
    ∀ op : Op, op.moves = false → t.Settled (t.step op)
  | .define s, _ => h.settled_define s
  | .markUsed name, _ => by
    rw [step_markUsed]
    exact t.settled_marked [name] []
  | .markAssigned name, _ => by
    rw [step_markAssigned]
    exact t.settled_marked [] [name]
  | .lookup _, _ | .unused _, _ => ⟨rfl, fun _ _ _ => rfl⟩

/-- Operations that leave what they enter add symbols to the current scope and to new ones only. -/
theorem Balanced.settled (balanced : Balanced ops) (h : t.IsNested) : t.Settled (t.after ops) := by
  induction balanced generalizing t with
  | nil => exact ⟨rfl, fun _ _ _ => rfl⟩
  | @stay op ops stays _ ih =>
    have first := h.settled_step op stays
    have rest := ih (h.step op)
    refine ⟨rest.current.trans first.current, fun i lt other => ?_⟩
    have lt' := Nat.lt_of_lt_of_le lt (h.extends_step op).length
    rw [after_cons, rest.sizes i lt' (first.current ▸ other), first.sizes i lt other]
  | @nest name inner ops _ _ ihInner ih =>
    have entered := h.enter name
    have length := t.length_enter name
    have inside := ihInner entered
    have nested : ((t.enter name).after inner).IsNested := entered.after
    -- the scope that was entered is left for the one around it
    have place : ((t.enter name).after inner).current = t.list.length := inside.current
    have left : ((t.enter name).after inner).exit.current = t.current := by
      show (((t.enter name).after inner).scopeAt _).parent.getD _ = _
      rw [place, (entered.extends_after.scopes t.list.length (by omega)).2, scopeAt_enter,
        if_pos rfl]
      rfl
    have rest := ih nested.exit
    have whole : t.after (.enter name :: (inner ++ .exit :: ops)) =
        (((t.enter name).after inner).exit).after ops := by
      rw [after_cons, after_append, after_cons]
      rfl
    rw [whole]
    refine ⟨rest.current.trans left, fun i lt other => ?_⟩
    have lt' : i < ((t.enter name).after inner).list.length :=
      Nat.lt_of_lt_of_le (by omega) entered.extends_after.length
    rw [rest.sizes i lt' (left ▸ other)]
    show (((t.enter name).after inner).scopeAt i).symbols.length = _
    rw [inside.sizes i (by omega) (Nat.ne_of_lt lt), scopeAt_enter, if_neg (Nat.ne_of_lt lt)]

/-- A scope of the earlier table that has not got more symbols has the same names. -/
theorem Extends.names (h : t.Extends t')
    (size : (t'.scopeAt i).symbols.length = (t.scopeAt i).symbols.length) :
    (t'.scopeAt i).symbols.map Symbol.name = (t.scopeAt i).symbols.map Symbol.name := by
  refine List.ext_getElem? fun k => ?_
  rw [List.getElem?_map, List.getElem?_map]
  cases found : (t.scopeAt i).symbols[k]? with
  | none =>
    have beyond := List.getElem?_eq_none_iff.mp found
    rw [List.getElem?_eq_none (by omega)]
  | some x =>
    obtain ⟨used, assigned, kept⟩ := h.symbols i k x found
    rw [symbolAt?] at kept
    rw [kept]
    rfl

/-- Between two tables with the same current scope, of which the later one has only got new scopes
and flags, names keep their meaning. -/
theorem Extends.innermost (h : t.Extends t') (nested : t.IsNested)
    (current : t'.current = t.current)
    (sizes : ∀ i < t.list.length, (t'.scopeAt i).symbols.length = (t.scopeAt i).symbols.length) :
    (∀ name i x, t.IsInnermost name i x →
        ∃ used assigned, t'.IsInnermost name i (x.flagged used assigned)) ∧
      ∀ name, t.lookup name = none → t'.IsNested → t'.lookup name = none := by
  have below {i j : Nat} (lt : i < t.list.length) (around : t.Around i j) : j < t.list.length :=
    Nat.lt_of_le_of_lt (nested.around_le lt around) lt
  have out {i j : Nat} (lt : i < t.list.length) (around : t.Around i j) : t'.Around i j :=
    around.congr fun k hk => (h.scopes k (below lt hk)).2
  -- the other way round it is by steps, since the later table may have scopes of its own
  have back {i j : Nat} (lt : i < t.list.length) (around : t'.Around i j) : t.Around i j := by
    induction around with
    | refl => exact .refl
    | tail _ parent ih => exact ih.tail ((h.scopes _ (below lt ih)).2 ▸ parent)
  have named {i : Nat} (lt : i < t.list.length) {name : String}
      (has : ∃ y ∈ (t'.scopeAt i).symbols, y.name = name) :
      ∃ y ∈ (t.scopeAt i).symbols, y.name = name := by
    rw [← List.mem_map, h.names (sizes i lt), List.mem_map] at has
    exact has
  constructor
  · rintro name i x ⟨around, mem, called, first⟩
    obtain ⟨k, found⟩ := List.getElem?_of_mem mem
    obtain ⟨used, assigned, kept⟩ := h.symbols i k x found
    refine ⟨used, assigned, ?_, List.mem_of_getElem? kept, called, fun j hj has => ?_⟩
    · rw [current]
      exact out nested.current around
    rw [current] at hj
    have there := back nested.current hj
    have lt := below nested.current there
    exact out (below nested.current around) (first j there (named lt has))
  · intro name none nested'
    rw [nested.lookup_eq_none_iff] at none
    rw [nested'.lookup_eq_none_iff, current]
    intro i around x mem called
    have there := back nested.current around
    obtain ⟨y, hy, eq⟩ := named (below nested.current there) ⟨x, mem, called⟩
    exact none i there y hy eq

/-- When a scope has been entered and left, the current scope is the one that it was, and every name
means the same symbol as before or again none. -/
theorem IsNested.restored (h : t.IsNested) (name : String) (balanced : Balanced ops) :
    (t.after (.enter name :: (ops ++ [.exit]))).current = t.current ∧
      (∀ name' i x, t.IsInnermost name' i x → ∃ used assigned,
        (t.after (.enter name :: (ops ++ [.exit]))).IsInnermost name' i (x.flagged used assigned)) ∧
      ∀ name', t.lookup name' = none →
        (t.after (.enter name :: (ops ++ [.exit]))).lookup name' = none := by
  have whole : t.Settled (t.after (.enter name :: (ops ++ [Op.exit]))) :=
    (Balanced.nest balanced .nil).settled h
  have entered := h.enter name
  have inside := balanced.settled entered
  have sizes (i : Nat) (lt : i < t.list.length) :
      ((t.after (.enter name :: (ops ++ [Op.exit]))).scopeAt i).symbols.length =
        (t.scopeAt i).symbols.length := by
    have eq : t.after (.enter name :: (ops ++ [Op.exit])) = ((t.enter name).after ops).exit := by
      rw [after_cons, after_append]
      rfl
    have length := t.length_enter name
    rw [eq]
    show (((t.enter name).after ops).scopeAt i).symbols.length = _
    rw [inside.sizes i (by omega) (Nat.ne_of_lt lt), scopeAt_enter, if_neg (Nat.ne_of_lt lt)]
  obtain ⟨means, none⟩ := h.extends_after.innermost h whole.current sizes
  exact ⟨whole.current, means, fun name' eq => none name' eq h.after⟩

/-! ### Runs -/

/-- The table is a stack of frames: as long as nothing is done with it, a name means what it means on
the stack, and a definition is answered as there. -/
structure IsStack (t : Scopes) (fs : Frames) : Prop where
  frames : t.frames = fs
  lookup : ∀ name, t.lookup name = Frames.lookup fs name
  define : ∀ s, (t.define s).1 = (Frames.define s fs).1

theorem IsNested.isStack (h : t.IsNested) : t.IsStack t.frames :=
  ⟨rfl, t.lookup_eq_frames, fun s => (h.frames_define s).1⟩

/-- A new table after some operations. -/
def ran (ops : List Op) : Scopes :=
  ({} : Scopes).after ops

/-- After any operations on a new table: scopes are nested, the first being the outermost one and
the current one being among them; the table goes along with a stack of frames; a name means the
symbol of the innermost scope around that has one, and nothing if none has.  Whatever is done then,
no scope and no symbol is lost or replaced, and a name that is defined again in its scope changes
nothing and points at the first definition.  A mark puts up a flag of the symbol that the name
means, and changes nothing else.  When a scope is entered and left again, the current scope is the
one it was, and every name means the same symbol as before, or again none. -/
theorem refines_nested_scopes (ops : List Op) :
    (ran ops).IsNested ∧
    (ran ops).IsStack (Frames.after [[]] ops) ∧
    (∀ name x, (ran ops).lookup name = some x ↔ ∃ i, (ran ops).IsInnermost name i x) ∧
    (∀ name, (ran ops).lookup name = none ↔ ∀ i, (ran ops).Around (ran ops).current i →
      ∀ x ∈ ((ran ops).scopeAt i).symbols, x.name ≠ name) ∧
    (∀ more, (ran ops).Extends ((ran ops).after more)) ∧
    (∀ more i k x s, (ran ops).symbolAt? i k = some x → ((ran ops).after more).current = i →
      s.name = x.name → ((ran ops).after more).define s =
        (some ⟨.duplicateDefinition s.name, s.span, .error, some x.span⟩, (ran ops).after more)) ∧
    (∀ name i k x, (ran ops).symbolAt? i k = some x →
      ((ran ops).IsInnermost name i x →
        ((ran ops).markUsed name).symbolAt? i k = some { x with used := true } ∧
          ((ran ops).markAssigned name).symbolAt? i k = some { x with assigned := true }) ∧
      (¬(ran ops).IsInnermost name i x →
        ((ran ops).markUsed name).symbolAt? i k = some x ∧
          ((ran ops).markAssigned name).symbolAt? i k = some x)) ∧
    (∀ name, ((ran ops).markUsed name).unmarked = (ran ops).unmarked ∧
      ((ran ops).markAssigned name).unmarked = (ran ops).unmarked) ∧
    ∀ name inner, Balanced inner →
      ((ran ops).after (.enter name :: (inner ++ [.exit]))).current = (ran ops).current ∧
      (∀ name' i x, (ran ops).IsInnermost name' i x → ∃ used assigned,
        ((ran ops).after (.enter name :: (inner ++ [.exit]))).IsInnermost name' i
          (x.flagged used assigned)) ∧
      ∀ name', (ran ops).lookup name' = none →
        ((ran ops).after (.enter name :: (inner ++ [.exit]))).lookup name' = none := by
  have h : (ran ops).IsNested := isNested_new.after
  -- The frames of the table are those that the operations give, step by step.
  have stack : (ran ops).IsStack (Frames.after [[]] ops) := by
    have frames : (ran ops).frames = Frames.after [[]] ops := isNested_new.frames_after
    exact frames ▸ h.isStack
  refine ⟨h, stack, ?_, ?_, ?_, ?_, ?_, ?_, ?_⟩
  · exact fun name x => h.lookup_eq_some_iff
  · exact fun name => h.lookup_eq_none_iff
  · exact fun more => h.extends_after
  · exact fun more i k x s found there called => h.define_again found there called
  · intro name i k x found
    have used := h.symbolAt?_mark found name fun x => { x with used := true }
    have assigned := h.symbolAt?_mark found name fun x => { x with assigned := true }
    exact ⟨fun means => ⟨used.1 means, assigned.1 means⟩, fun other => ⟨used.2 other, assigned.2 other⟩⟩
  · intro name
    rw [markUsed_eq, markAssigned_eq]
    exact ⟨unmarked_marked, unmarked_marked⟩
  · exact fun name inner balanced => h.restored name balanced

/-- A global name is hidden inside of a scope, marked there, and means the global symbol again when
the scope has been left; to define it once more is refused. -/
theorem refines_nested_scopes_hidden :
    let g : Symbol := { name := "g", assigned := true }
    let inside : List Op := [.define { name := "g" }, .define { name := "x" }, .markUsed "g"]
    let left := (ran [.define g]).after (.enter "Main" :: (inside ++ [.exit]))
    (ran [.define g]).lookup "g" = some g ∧ left.current = 0 ∧
      (∃ used assigned, left.lookup "g" = some (g.flagged used assigned)) ∧
      left.lookup "x" = none ∧
      left.define { name := "g" } =
        (some ⟨.duplicateDefinition "g", Span.zero, .error, some Span.zero⟩, left) := by
  intro g inside left
  obtain ⟨h, -, some, -, -, again, -, -, nest⟩ := refines_nested_scopes [.define g]
  have balanced : Balanced inside := .stay rfl (.stay rfl (.stay rfl .nil))
  obtain ⟨current, means, none⟩ := nest "Main" inside balanced
  obtain ⟨i, innermost⟩ := (some "g" g).mp rfl
  obtain ⟨used, assigned, after⟩ := means "g" i g innermost
  have nested : left.IsNested := h.after
  exact ⟨rfl, current, ⟨used, assigned, nested.lookup_eq_some_iff.mpr ⟨i, after⟩⟩, none "x" rfl,
    again _ 0 0 g { name := "g" } rfl current rfl⟩

end Scopes

end Plc

/-
The types that a text declares.

A `Registry` holds what is written for each type name, the names of function blocks, the types
that have been found so far, and the names that are just being resolved.  Declarations may refer to
each other in circles; a name that is met again while it is being resolved stands for the
unknown type there.  A search comes to an end because no declaration is opened inside itself.

* `Registry.seek` — the type of a name, remembered for later, if the search comes to an end;
* `seek_settles` — it does, and then nothing has changed but that more types are known;
* `Registry.resolve` — the type of a name;
* `Registry.ofSpec` — the type of a specification.
-/
import Plc.Keyed
import Plc.Tree.Decl
import Plc.Types.Ty

namespace Plc

/-- The number that an expression is: a whole number or a duration, negated or in parentheses
perhaps. -/
def Expr.intValue? : Expr → Option Int
  | .literal _ l =>
    match l.value with
    | .integer n | .duration n => some n
    | _ => none
  | .unary _ .neg x => x.intValue?.map (- ·)
  | .paren _ x => x.intValue?
  | _ => none

/-- The types of a text: what is written for them, and what has been found. -/
structure Registry where
  specs : Keyed TypeSpec := []
  /-- The names of function blocks and classes. -/
  blocks : List String := []
  known : Keyed Ty := []
  /-- The names that are being resolved, the innermost first. -/
  pending : List String := []

/-- A computation that may find types.  It fails when more declarations would have to be open at
once than it may open. -/
abbrev Seeking := StateT Registry Option

/-- A computation that may find types. -/
abbrev Resolving := StateM Registry

namespace Ty

/-- Gives a structure or an enumeration the name of its declaration, unless it has one. -/
def withName (name : String) : Ty → Ty
  | .struct none fields => .struct (some name) fields
  | .enum none members base => .enum (some name) members base
  | t => t

/-- The type has a name or needs none, so that no other declaration names it. -/
def IsNamed (t : Ty) : Prop := ∀ name, t.withName name = t

theorem isNamed_withName (t : Ty) (name : String) : (t.withName name).IsNamed := by
  intro other
  match t with
  | .struct none _ | .struct (some _) _ | .enum none _ _ | .enum (some _) _ _ => rfl
  | .simple _ | .string _ _ | .array _ _ | .subrange _ _ _ | .functionBlock _ | .pointer _ => rfl

end Ty

/-! ### Specifications -/

section

variable {m : Type → Type} [Monad m]

mutual

/-- The type of a specification, when names are resolved by `lookUp`. -/
def Ty.ofSpecBy (lookUp : String → m Ty) : TypeSpec → m Ty
  | .elementary _ name length =>
    return match Ty.ofName name with
      | .string wide _ => .string wide (length.bind Expr.intValue?)
      | t => t
  | .array _ dims element => return .array dims.length (← ofSpecBy lookUp element)
  | .struct _ fields => return .struct none (Keyed.ofEntries (← ofFieldsBy lookUp fields))
  | .ref _ inner => return .pointer (some (← ofSpecBy lookUp inner))
  | .enum _ members base =>
    return .enum none (members.map EnumMember.name) (base.map NamedType.ofName)
  | .subrange _ base low high =>
    return .subrange (NamedType.ofName base) low.intValue? high.intValue?
  | .named _ name => lookUp name

/-- The types of the fields of a structure. -/
def Ty.ofFieldsBy (lookUp : String → m Ty) : List StructField → m (List (String × Ty))
  | [] => return []
  | .mk _ name type _ :: fs => do
    let t ← ofSpecBy lookUp type
    return (name, t) :: (← ofFieldsBy lookUp fs)

end

end

/-- The type of a specification when each name stands for the given type. -/
def TypeSpec.sense (stands : String → Ty) (spec : TypeSpec) : Ty :=
  Id.run (Ty.ofSpecBy (fun name => pure (stands name)) spec)

mutual

/-- The type names that a specification mentions. -/
def TypeSpec.mentions : TypeSpec → List String
  | .elementary _ _ _ | .enum _ _ _ | .subrange _ _ _ _ => []
  | .array _ _ element => element.mentions
  | .struct _ fields => StructField.mentionsAll fields
  | .ref _ inner => inner.mentions
  | .named _ name => [name]

/-- The type names that some fields mention. -/
def StructField.mentionsAll : List StructField → List String
  | [] => []
  | .mk _ _ type _ :: fs => type.mentions ++ StructField.mentionsAll fs

end

namespace Registry

/-- What the declarations of a unit say about types. -/
def ofUnit (u : CompilationUnit) : Registry :=
  { specs := Keyed.ofEntries (u.typeDecls.map fun d => (d.name, d.type))
    blocks := u.pous.filterMap fun
      | .functionBlock c _ _ | .classDecl c _ _ => some c.name
      | _ => none }

/-- The type of a name, found with no more than `levels` further declarations open inside each other.
A declaration is opened when its name is asked for first, and stays open until everything that it
refers to is found. -/
def seek : (levels : Nat) → String → Seeking Ty
  | levels, name => do
    let r ← get
    match r.known.lookup name with
    | some t => return t
    | none =>
      if r.blocks.contains name then return .functionBlock name
      else
        match r.specs.lookup name with
        | none => return .ofName name
        | some spec =>
          if r.pending.contains name then return .unknown
          else
            match levels with
            | 0 => failure
            | levels + 1 =>
              modify fun r => { r with pending := name :: r.pending }
              let t ← Ty.ofSpecBy (seek levels) spec
              modify fun r => { r with pending := r.pending.erase name }
              let t := t.withName name
              modify fun r => { r with known := r.known.put name t }
              return t

/-! ### One step -/

section

variable {levels : Nat} {r r' : Registry} {name : String}

/-- The text declares a type of the name, and no function block hides it. -/
def Declares (r : Registry) (name : String) (spec : TypeSpec) : Prop :=
  r.blocks.contains name = false ∧ r.specs.lookup name = some spec

/-- The registry while a further name is being resolved. -/
def opening (r : Registry) (name : String) : Registry :=
  { r with pending := name :: r.pending }

/-- The registry after the name has been resolved. -/
def closing (r : Registry) (name : String) (t : Ty) : Registry :=
  { r with pending := r.pending.erase name, known := r.known.put name t }

theorem seek_known {t : Ty} (h : r.known.lookup name = some t) :
    (seek levels name).run r = some (t, r) := by
  unfold seek
  simp only [StateT.run_bind, StateT.run_get, pure_bind, h]
  rfl

theorem seek_block (new : r.known.lookup name = none) (h : r.blocks.contains name = true) :
    (seek levels name).run r = some (.functionBlock name, r) := by
  unfold seek
  simp only [StateT.run_bind, StateT.run_get, pure_bind, new, h, if_true]
  rfl

theorem seek_plain (new : r.known.lookup name = none) (h : r.blocks.contains name = false)
    (undeclared : r.specs.lookup name = none) :
    (seek levels name).run r = some (.ofName name, r) := by
  unfold seek
  simp only [StateT.run_bind, StateT.run_get, pure_bind, new, h, undeclared, Bool.false_eq_true,
    if_false]
  rfl

theorem seek_pending {spec : TypeSpec} (new : r.known.lookup name = none) (h : r.Declares name spec)
    (again : name ∈ r.pending) : (seek levels name).run r = some (.unknown, r) := by
  unfold seek
  simp only [StateT.run_bind, StateT.run_get, pure_bind, new, h.1, h.2, Bool.false_eq_true, if_false,
    List.contains_iff_mem.2 again, if_true]
  rfl

/-- A declaration is opened, and what it stands for is remembered. -/
theorem seek_declared {spec : TypeSpec} {t : Ty} (new : r.known.lookup name = none)
    (h : r.Declares name spec) (first : name ∉ r.pending)
    (inside : (Ty.ofSpecBy (seek levels) spec).run (r.opening name) = some (t, r')) :
    (seek (levels + 1) name).run r =
      some (t.withName name, r'.closing name (t.withName name)) := by
  have unopened : r.pending.contains name = false :=
    Bool.eq_false_iff.2 fun again => first (List.contains_iff_mem.1 again)
  have opened : (modify fun r : Registry => { r with pending := name :: r.pending } :
      Seeking PUnit).run r = some (⟨⟩, r.opening name) := rfl
  rw [seek]
  simp only [StateT.run_bind, StateT.run_get, pure_bind, new, h.1, h.2, unopened,
    Bool.false_eq_true, if_false, opened, inside, Option.bind_eq_bind, Option.bind_some]
  rfl

end

/-! ### Whole searches -/

section

variable {I : Registry → Prop} {bound : Nat} {told : Prop} {stands : String → Ty} {α β : Type}

/-- With `bound` levels or more the search finds one and the same thing and keeps the invariant; and
if what is found is told, it is `a`. -/
def Finds (I : Registry → Prop) (bound : Nat) (told : Prop) (m : Nat → Seeking α) (a : α) : Prop :=
  ∀ r, I r → ∃ b r', (∀ levels, bound ≤ levels → (m levels).run r = some (b, r')) ∧
    (told → b = a) ∧ I r'

theorem Finds.pure {a b : α} (h : told → b = a) : Finds I bound told (fun _ => pure b) a :=
  fun r hr => ⟨b, r, fun _ _ => rfl, h, hr⟩

theorem Finds.bind {m : Nat → Seeking α} {f : α → Nat → Seeking β} {a : α} {b : β}
    (hm : Finds I bound told m a)
    (hf : ∀ a', (told → a' = a) → Finds I bound told (f a') b) :
    Finds I bound told (fun levels => m levels >>= fun a => f a levels) b := by
  intro r hr
  obtain ⟨a', r', first, same, kept⟩ := hm r hr
  obtain ⟨b', r'', second, same', kept'⟩ := hf a' same r' kept
  refine ⟨b', r'', fun levels enough => ?_, same', kept'⟩
  rw [StateT.run_bind, first levels enough]
  exact second levels enough

variable {lookUp : Nat → String → Seeking Ty}

mutual

/-- If each name that a specification mentions is found, so is the type of the specification. -/
theorem ofSpecBy_finds : ∀ spec : TypeSpec,
    (∀ name ∈ spec.mentions, Finds I bound told (lookUp · name) (stands name)) →
    Finds I bound told (fun levels => Ty.ofSpecBy (lookUp levels) spec) (spec.sense stands)
  | .elementary _ _ _, _ | .enum _ _ _, _ | .subrange _ _ _ _, _ => .pure fun _ => rfl
  | .array _ dims element, h =>
    (ofSpecBy_finds element h).bind fun _ same =>
      .pure fun known => congrArg (Ty.array dims.length) (same known)
  | .struct _ fields, h =>
    (ofFieldsBy_finds fields h).bind fun _ same =>
      .pure fun known => congrArg (fun ts => Ty.struct none (Keyed.ofEntries ts)) (same known)
  | .ref _ inner, h =>
    (ofSpecBy_finds inner h).bind fun _ same =>
      .pure fun known => congrArg (fun t => Ty.pointer (some t)) (same known)
  | .named _ name, h => h name List.mem_cons_self

theorem ofFieldsBy_finds : ∀ fields : List StructField,
    (∀ name ∈ StructField.mentionsAll fields, Finds I bound told (lookUp · name) (stands name)) →
    Finds I bound told (fun levels => Ty.ofFieldsBy (lookUp levels) fields)
      (Id.run (Ty.ofFieldsBy (fun name => pure (stands name)) fields))
  | [], _ => .pure fun _ => rfl
  | .mk _ name type _ :: fs, h => by
    have first := ofSpecBy_finds type fun n hn => h n (List.mem_append_left _ hn)
    have others := ofFieldsBy_finds fs fun n hn => h n (List.mem_append_right _ hn)
    refine first.bind fun t same => others.bind fun ts same' => .pure fun known => ?_
    rw [same known, same' known]
    rfl

end

end

/-! ### Every search comes to an end -/

section

variable {r r' r'' : Registry} {name : String}

/-- Nothing has changed but that more types are known.  None of them is the type of a name that is
being resolved, and all of them have their names. -/
structure Settles (r r' : Registry) : Prop where
  specs : r'.specs = r.specs
  blocks : r'.blocks = r.blocks
  pending : r'.pending = r.pending
  known : r.known <+: r'.known
  waiting : ∀ o ∈ r.pending, r.known.lookup o = none → r'.known.lookup o = none
  named : (∀ e ∈ r.known, e.2.IsNamed) → ∀ e ∈ r'.known, e.2.IsNamed

namespace Settles

theorem refl (r : Registry) : r.Settles r :=
  ⟨rfl, rfl, rfl, List.prefix_rfl, fun _ _ h => h, fun h => h⟩

theorem trans (h : r.Settles r') (h' : r'.Settles r'') : r.Settles r'' where
  specs := h'.specs.trans h.specs
  blocks := h'.blocks.trans h.blocks
  pending := h'.pending.trans h.pending
  known := h.known.trans h'.known
  waiting o ho new := h'.waiting o (h.pending ▸ ho) (h.waiting o ho new)
  named all := h'.named (h.named all)

/-- A type that is known stays the type of its name. -/
theorem lookup (h : r.Settles r') {t : Ty} (found : r.known.lookup name = some t) :
    r'.known.lookup name = some t := by
  obtain ⟨more, eq⟩ := h.known
  rw [← eq, List.lookup_append, found]
  rfl

/-- A name that has been resolved is no longer pending, and its type comes after all types that were
known before. -/
theorem closing (new : r.known.lookup name = none) (first : name ∉ r.pending)
    (h : (r.opening name).Settles r') {t : Ty} (named : t.IsNamed) :
    r.Settles (r'.closing name t) := by
  have still : r'.known.lookup name = none := h.waiting name List.mem_cons_self new
  have last : (r'.closing name t).known = r'.known ++ [(name, t)] := Keyed.put_of_lookup still t
  refine ⟨h.specs, h.blocks, ?_, ?_, fun o ho unknown => ?_, fun all => ?_⟩
  · show r'.pending.erase name = r.pending
    rw [h.pending]
    exact List.erase_cons_head name r.pending
  · rw [last]
    exact h.known.trans (List.prefix_append r'.known _)
  · have other : o ≠ name := fun same => first (same ▸ ho)
    show (r'.known.put name t).lookup o = none
    rw [Keyed.lookup_put, if_neg other]
    exact h.waiting o (List.mem_cons_of_mem _ ho) unknown
  · rw [last]
    exact List.forall_mem_append.2 ⟨h.named all, List.forall_mem_singleton.2 named⟩

end Settles

/-- How many declarations are not open. -/
def closed (r : Registry) : Nat :=
  r.specs.countP fun e => e.1 ∉ r.pending

/-- Opening a declaration leaves fewer. -/
theorem closed_opening_lt {spec : TypeSpec} (h : r.specs.lookup name = some spec)
    (first : name ∉ r.pending) : (r.opening name).closed < r.closed := by
  have split : r.closed = (r.opening name).closed + r.specs.countP (·.1 = name) :=
    Keyed.countP_notMem first r.specs
  have among : 0 < r.specs.countP (·.1 = name) :=
    List.countP_pos_iff.2 ⟨(name, spec), Keyed.mem_of_lookup h, decide_eq_true rfl⟩
  omega

theorem Settles.closed_eq (h : r.Settles r') : r'.closed = r.closed := by
  rw [closed, closed, h.specs, h.pending]

/-- Whatever the declarations refer to, the search for a name comes to an end: more levels than there
are declarations that are not open make no difference. -/
theorem seek_settles (name : String) (r : Registry) :
    ∃ t r', (∀ levels, r.closed ≤ levels → (seek levels name).run r = some (t, r')) ∧
      r.Settles r' := by
  -- the induction is on the declarations that may still be opened
  induction left : r.closed using Nat.strongRecOn generalizing name r with
  | ind n ih =>
    cases found : r.known.lookup name with
    | some t => exact ⟨t, r, fun _ _ => seek_known found, .refl r⟩
    | none =>
      cases block : r.blocks.contains name with
      | true => exact ⟨_, r, fun _ _ => seek_block found block, .refl r⟩
      | false =>
        cases declares : r.specs.lookup name with
        | none => exact ⟨_, r, fun _ _ => seek_plain found block declares, .refl r⟩
        | some spec =>
          by_cases again : name ∈ r.pending
          · exact ⟨_, r, fun _ _ => seek_pending found ⟨block, declares⟩ again, .refl r⟩
          have fewer : (r.opening name).closed < n := left ▸ closed_opening_lt declares again
          have mentioned (k : String) : Finds (r.opening name).Settles (r.opening name).closed False
              (seek · k) .unknown := fun r' hr' => by
            obtain ⟨t, r'', run, kept⟩ := ih _ (hr'.closed_eq ▸ fewer) k r' rfl
            exact ⟨t, r'', hr'.closed_eq ▸ run, nofun, hr'.trans kept⟩
          obtain ⟨t, r', inside, -, kept⟩ :=
            @ofSpecBy_finds _ _ _ (fun _ => .unknown) _ spec (fun k _ => mentioned k) _ (.refl _)
          refine ⟨t.withName name, r'.closing name (t.withName name), fun levels enough => ?_,
            kept.closing found again (t.isNamed_withName name)⟩
          obtain ⟨less, rfl⟩ := Nat.exists_eq_add_of_le' (Nat.le_trans (Nat.succ_le_of_lt fewer) enough)
          exact seek_declared found ⟨block, declares⟩ again (inside _ (Nat.le_add_left _ _))

theorem closed_le (r : Registry) : r.closed ≤ r.specs.length :=
  List.countP_le_length

end

/-! ### Asking for types -/

/-- The type of a name.  No more declarations than there are can be open at once. -/
def resolve (name : String) : Resolving Ty :=
  fun r => ((seek r.specs.length name).run r).get (by
    obtain ⟨t, r', run, -⟩ := seek_settles name r
    rw [run _ r.closed_le]
    rfl)

/-- The type of a specification. -/
def ofSpec (spec : TypeSpec) : Resolving Ty :=
  Ty.ofSpecBy resolve spec

/-- The type of a specification when nothing is declared. -/
def ofSpecAlone (spec : TypeSpec) : Ty :=
  spec.sense fun name => .struct (some name) []

/-- The first enumeration, in the order of declaration, that has a member of the name. -/
def enumOf? (r : Registry) (member : String) : Option String :=
  (r.specs.find? fun (_, spec) =>
    match spec with
    | .enum _ members _ => members.any (·.name == member)
    | _ => false).map (·.1)

/-- Every search that may open enough declarations finds the type of the name. -/
theorem seek_eq {levels : Nat} {r : Registry} (enough : r.closed ≤ levels) (name : String) :
    (seek levels name).run r = some ((resolve name).run r) := by
  obtain ⟨t, r', run, -⟩ := seek_settles name r
  rw [run _ enough, ← run _ r.closed_le]
  exact (Option.some_get _).symm

theorem resolve_settles (name : String) (r : Registry) : r.Settles ((resolve name).run r).2 := by
  obtain ⟨t, r', run, kept⟩ := seek_settles name r
  rw [Option.some.inj ((seek_eq (Nat.le_refl _) name).symm.trans (run _ (Nat.le_refl _)))]
  exact kept

/-- Which enumeration a name is a member of is read off the specifications. -/
theorem enumOf?_congr {r r' : Registry} (h : r'.specs = r.specs) (member : String) :
    r'.enumOf? member = r.enumOf? member := by
  unfold enumOf?
  rw [h]

end Registry

end Plc

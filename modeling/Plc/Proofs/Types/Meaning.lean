/-
What a type name stands for, whatever was asked before.

A registry remembers the types it has found.  A name that is met again while it is being resolved
stands for the unknown type there, so what is found for a name may turn on the name that was asked
for first.  It does not where names refer to each other in circles of one name at most.

* `Registry.Means` — the type of a name, told without a registry that remembers;
* `Registry.Untangled` — no two names among those that a name leads to refer to each other;
* `resolve_answers` — what is found for an untangled name is what it means;
* `Registry.resolve_asked` — earlier questions change no answer about an untangled name;
* `Registry.resolve_asked_mutual` — they do change one about structures that hold each other;
* `Registry.seek_lasts` — whatever is asked in a row, each question is answered, and what has been found stays.
-/
import Mathlib.Data.List.Basic
import Mathlib.Logic.Relation
import Plc.Types.Registry

namespace Plc

/-- The type of a specification turns on what its own names stand for. -/
theorem TypeSpec.sense_congr {stands stands' : String → Ty} {spec : TypeSpec}
    (h : ∀ name ∈ spec.mentions, stands name = stands' name) :
    spec.sense stands = spec.sense stands' := by
  obtain ⟨t, r, run, same, -⟩ :=
    @Registry.ofSpecBy_finds (fun _ => True) 0 True stands (fun _ name => pure (stands name)) spec
      (fun _ _ => .pure fun _ => rfl) {} trivial
  obtain ⟨t', r', run', same', -⟩ :=
    @Registry.ofSpecBy_finds (fun _ => True) 0 True stands' (fun _ name => pure (stands name)) spec
      (fun name hn => .pure fun _ => h name hn) {} trivial
  have both := (run 0 (Nat.le_refl _)).symm.trans (run' 0 (Nat.le_refl _))
  rw [← same trivial, ← same' trivial, (Prod.mk.inj (Option.some.inj both)).1]

namespace Registry

variable {r base : Registry} {name other : String}

/-! ### Names that lead to names -/

/-- The declaration of the one name mentions the other. -/
def Refers (r : Registry) (name other : String) : Prop :=
  ∃ spec, r.Declares name spec ∧ other ∈ spec.mentions

/-- The one name leads to the other along declarations. -/
abbrev Leads (r : Registry) : String → String → Prop :=
  Relation.ReflTransGen r.Refers

/-- No two different names among those that the name leads to lead to each other. -/
def Untangled (r : Registry) (name : String) : Prop :=
  ∀ a b, r.Leads name a → r.Leads a b → r.Leads b a → a = b

theorem Untangled.of_leads (h : r.Untangled name) (leads : r.Leads name other) :
    r.Untangled other :=
  fun a b first => h a b (leads.trans first)

/-- A rank that falls along every reference between some names, those of a name to itself aside,
leaves no room for other circles. -/
theorem Untangled.of_rank (among : String → Prop) (rank : String → Nat) (start : among name)
    (falls : ∀ a b, among a → r.Refers a b → among b ∧ (a = b ∨ rank b < rank a)) :
    r.Untangled name := by
  have down {a b : String} (here : among a) (leads : r.Leads a b) :
      among b ∧ (a = b ∨ rank b < rank a) := by
    induction leads with
    | refl => exact ⟨here, .inl rfl⟩
    | tail first step ih =>
      obtain ⟨there, same | lower⟩ := falls _ _ ih.1 step
      · exact ⟨there, same ▸ ih.2⟩
      · refine ⟨there, .inr ?_⟩
        obtain same | lower' := ih.2
        · exact same ▸ lower
        · exact Nat.lt_trans lower lower'
  intro a b leads there back
  have here := (down start leads).1
  obtain ⟨next, same | lower⟩ := down here there
  · exact same
  · obtain same | lower' := (down next back).2
    · exact same.symm
    · exact absurd lower (Nat.lt_asymm lower')

/-! ### What a name means -/

/-- The name stands for the type.  In its own declaration it stands for the unknown type. -/
inductive Means (r : Registry) : String → Ty → Prop
  | block {name : String} (known : r.blocks.contains name = true) :
    Means r name (.functionBlock name)
  | plain {name : String} (other : r.blocks.contains name = false)
    (undeclared : r.specs.lookup name = none) : Means r name (.ofName name)
  | declared {name : String} {spec : TypeSpec} (declares : r.Declares name spec)
    (stands : String → Ty) (own : name ∈ spec.mentions → stands name = .unknown)
    (inside : ∀ k ∈ spec.mentions, k ≠ name → Means r k (stands k)) :
    Means r name ((spec.sense stands).withName name)

/-- A name means one type. -/
theorem Means.unique {t t' : Ty} (h : r.Means name t) (h' : r.Means name t') : t = t' := by
  induction h generalizing t' with
  | block known =>
    cases h' with
    | block => rfl
    | plain other => exact absurd (known.symm.trans other) nofun
    | declared declares => exact absurd (known.symm.trans declares.1) nofun
  | plain other undeclared =>
    cases h' with
    | plain => rfl
    | block known => exact absurd (known.symm.trans other) nofun
    | declared declares => exact absurd (undeclared.symm.trans declares.2) nofun
  | @declared name spec declares stands own inside ih =>
    cases h' with
    | block known => exact absurd (known.symm.trans declares.1) nofun
    | plain _ undeclared => exact absurd (undeclared.symm.trans declares.2) nofun
    | @declared _ spec' declares' stands' own' inside' =>
      obtain rfl : spec = spec' := Option.some.inj (declares.2.symm.trans declares'.2)
      refine congrArg (Ty.withName name) (TypeSpec.sense_congr fun k hk => ?_)
      by_cases same : k = name
      · subst same
        rw [own hk, own' hk]
      · exact ih k hk same (inside' k hk same)

/-! ### One question -/

theorem resolve_eq {levels : Nat} {found : Ty × Registry} (enough : r.closed ≤ levels)
    (h : (seek levels name).run r = some found) : (resolve name).run r = found :=
  Option.some.inj ((seek_eq enough name).symm.trans h)

/-- What a structure with one field of a named type is. -/
theorem resolve_field {s s' s'' : Span} {field other : String} {t : Ty} {r' : Registry}
    (new : r.known.lookup name = none)
    (h : r.Declares name (.struct s [.mk s' field (.named s'' other) none]))
    (first : name ∉ r.pending) (inside : (resolve other).run (r.opening name) = (t, r')) :
    (resolve name).run r =
      (.struct (some name) [(field, t)], r'.closing name (.struct (some name) [(field, t)])) := by
  obtain ⟨levels, eq⟩ := Nat.exists_eq_add_of_lt (closed_opening_lt h.2 first)
  have found : (seek ((r.opening name).closed + levels) other).run (r.opening name) = some (t, r') :=
    (seek_eq (Nat.le_add_right _ _) other).trans (congrArg some inside)
  refine resolve_eq (Nat.le_of_eq eq) (@seek_declared _ _ _ _ _ (.struct none [(field, t)]) new h first ?_)
  simp only [Ty.ofSpecBy, Ty.ofFieldsBy, StateT.run_bind, found]
  rfl

/-- The registry is that of the text, none of the names that are being resolved is found yet, and
what is remembered for an untangled name is what it means. -/
structure Remembers (base : Registry) (opened : List String) (r : Registry) : Prop where
  specs : r.specs = base.specs
  blocks : r.blocks = base.blocks
  pending : r.pending = opened
  waiting : ∀ o ∈ opened, r.known.lookup o = none
  sound : ∀ k t, base.Untangled k → r.known.lookup k = some t → base.Means k t

theorem Remembers.declares {spec : TypeSpec} (h : Remembers base opened r) :
    r.Declares name spec ↔ base.Declares name spec := by
  rw [Declares, Declares, h.specs, h.blocks]

/-- The same declarations are open in all registries that remember right. -/
theorem Remembers.closed_eq (h : Remembers base opened r) {r' : Registry}
    (h' : Remembers base opened r') : r'.closed = r.closed := by
  rw [closed, closed, h'.specs, h'.pending, h.specs, h.pending]

theorem Remembers.opening (h : Remembers base opened r) (new : r.known.lookup name = none) :
    Remembers base (name :: opened) (r.opening name) :=
  ⟨h.specs, h.blocks, congrArg (name :: ·) h.pending, List.forall_mem_cons.2 ⟨new, h.waiting⟩, h.sound⟩

/-- A name that is found while others are being resolved is remembered. -/
theorem Remembers.closing {t : Ty} (h : Remembers base (name :: opened) r) (first : name ∉ opened)
    (means : base.Untangled name → base.Means name t) :
    Remembers base opened (r.closing name t) where
  specs := h.specs
  blocks := h.blocks
  pending := by
    show r.pending.erase name = opened
    rw [h.pending]
    exact List.erase_cons_head name opened
  waiting o ho := by
    have other : o ≠ name := fun same => first (same ▸ ho)
    show (r.known.put name t).lookup o = none
    rw [Keyed.lookup_put, if_neg other]
    exact h.waiting o (List.mem_cons_of_mem _ ho)
  sound k t' alone found := by
    replace found : (r.known.put name t).lookup k = some t' := found
    rw [Keyed.lookup_put] at found
    by_cases same : k = name
    · rw [if_pos same] at found
      cases found
      exact same ▸ means (same ▸ alone)
    · rw [if_neg same] at found
      exact h.sound k t' alone found

/-- While the names in `opened` are being resolved, one of them stands for the unknown type, an
untangled name for what it means, and the registry goes on remembering right. -/
structure Answers (base : Registry) (opened : List String) (name : String) (run : Ty × Registry) :
    Prop where
  own : name ∈ opened → run.1 = .unknown
  means : name ∉ opened → base.Untangled name → base.Means name run.1
  remembers : Remembers base opened run.2

/-- If the names that a declaration mentions are answered, so is its own name. -/
theorem Answers.declared {spec : TypeSpec} (declares : base.Declares name spec)
    (first : name ∉ opened) (leads : ∀ o ∈ opened, base.Leads o name) (h : Remembers base opened r)
    (new : r.known.lookup name = none)
    (each : ∀ k ∈ spec.mentions, ∀ r', Remembers base (name :: opened) r' →
      Answers base (name :: opened) k ((resolve k).run r')) :
    Answers base opened name ((resolve name).run r) := by
  let stands (k : String) : Ty := ((resolve k).run (r.opening name)).1
  have start : Remembers base (name :: opened) (r.opening name) := h.opening new
  have step {k : String} (hk : k ∈ spec.mentions) : base.Leads name k :=
    .single ⟨spec, declares, hk⟩
  -- a name other than the one being declared is none of those that wait for it
  have apart (alone : base.Untangled name) {k : String} (hk : k ∈ spec.mentions) (other : k ≠ name) :
      k ∉ name :: opened := by
    intro among
    obtain same | waiting := List.mem_cons.1 among
    · exact other same
    · exact other (alone name k .refl (step hk) (leads k waiting)).symm
  have inside (alone : base.Untangled name) (k : String) (hk : k ∈ spec.mentions) (other : k ≠ name)
      (r' : Registry) (h' : Remembers base (name :: opened) r') :
      base.Means k ((resolve k).run r').1 :=
    (each k hk r' h').means (apart alone hk other) (alone.of_leads (step hk))
  obtain ⟨t, r', run, same, kept⟩ :=
    @ofSpecBy_finds (Remembers base (name :: opened)) (r.opening name).closed (base.Untangled name)
      stands seek spec (fun k hk r' h' => by
        refine ⟨_, _, fun levels enough => seek_eq (start.closed_eq h' ▸ enough) k, fun alone => ?_,
          (each k hk r' h').remembers⟩
        by_cases own : k = name
        · have among : k ∈ name :: opened := own ▸ List.mem_cons_self
          exact ((each k hk r' h').own among).trans ((each k hk _ start).own among).symm
        · exact (inside alone k hk own r' h').unique (inside alone k hk own _ start)) _ start
  have means (alone : base.Untangled name) : base.Means name (t.withName name) := by
    rw [same alone]
    refine .declared declares stands (fun hk => ?_) fun k hk other => inside alone k hk other _ start
    exact (each name hk _ start).own List.mem_cons_self
  have unopened : name ∉ r.pending := h.pending ▸ first
  obtain ⟨levels, eq⟩ := Nat.exists_eq_add_of_lt (closed_opening_lt (h.declares.2 declares).2 unopened)
  rw [resolve_eq (Nat.le_of_eq eq)
    (seek_declared new (h.declares.2 declares) unopened (run _ (Nat.le_add_right _ levels)))]
  exact ⟨fun again => absurd again first, fun _ => means, kept.closing first means⟩

/-- While the names in `opened` are being resolved, each of which leads to the name, it is
answered. -/
theorem resolve_answers_opened (declared : ∀ o ∈ opened, ∃ spec, base.Declares o spec)
    (leads : ∀ o ∈ opened, base.Leads o name) (h : Remembers base opened r) :
    Answers base opened name ((resolve name).run r) := by
  -- the induction is on the declarations that may still be opened inside each other
  induction left : r.closed using Nat.strongRecOn generalizing opened name r with
  | ind n ih =>
    cases found : r.known.lookup name with
    | some t =>
      rw [resolve_eq (Nat.le_refl _) (seek_known found)]
      refine ⟨fun again => ?_, fun _ alone => h.sound name t alone found, h⟩
      exact absurd (found.symm.trans (h.waiting name again)) nofun
    | none =>
      by_cases again : name ∈ opened
      · obtain ⟨spec, declares⟩ := declared name again
        rw [resolve_eq (Nat.le_refl _) (seek_pending found (h.declares.2 declares) (h.pending ▸ again))]
        exact ⟨fun _ => rfl, fun first => absurd again first, h⟩
      cases block : r.blocks.contains name with
      | true =>
        rw [resolve_eq (Nat.le_refl _) (seek_block found block)]
        exact ⟨fun again' => absurd again' again, fun _ _ => .block (h.blocks ▸ block), h⟩
      | false =>
        cases declares : r.specs.lookup name with
        | none =>
          rw [resolve_eq (Nat.le_refl _) (seek_plain found block declares)]
          refine ⟨fun again' => absurd again' again, fun _ _ => ?_, h⟩
          exact .plain (h.blocks ▸ block) (h.specs ▸ declares)
        | some spec =>
          have here : base.Declares name spec := h.declares.1 ⟨block, declares⟩
          refine .declared here again leads h found fun k hk r' h' => ?_
          have fewer : r'.closed < n := by
            rw [(h.opening found).closed_eq h', ← left]
            exact closed_opening_lt declares (h.pending ▸ again)
          refine ih r'.closed fewer ?_ ?_ h' rfl
          · exact List.forall_mem_cons.2 ⟨⟨spec, here⟩, declared⟩
          · have step : base.Refers name k := ⟨spec, here, hk⟩
            exact List.forall_mem_cons.2 ⟨.single step, fun o ho => (leads o ho).tail step⟩

/-! ### Many questions -/

/-- The registry after it has been asked for some names, one after the other. -/
def asked (r : Registry) (names : List String) : Registry :=
  names.foldl (fun r name => ((resolve name).run r).2) r

theorem resolve_answers (h : Remembers base [] r) : Answers base [] name ((resolve name).run r) :=
  resolve_answers_opened (List.forall_mem_nil _) (List.forall_mem_nil _) h

theorem asked_remembers (h : Remembers base [] r) (names : List String) :
    Remembers base [] (r.asked names) := by
  induction names generalizing r with
  | nil => exact h
  | cons name names ih => exact ih (resolve_answers h).remembers

theorem remembers_ofUnit (u : CompilationUnit) : Remembers (ofUnit u) [] (ofUnit u) :=
  ⟨rfl, rfl, rfl, List.forall_mem_nil _, nofun⟩

/-- An untangled name of a text stands for what it means, whatever other names were asked for
before; so its type is that on a registry that has not been asked for any. -/
theorem resolve_asked (u : CompilationUnit) {name : String} (alone : (ofUnit u).Untangled name)
    (earlier : List String) :
    (ofUnit u).Means name ((resolve name).run ((ofUnit u).asked earlier)).1 ∧
      ((resolve name).run ((ofUnit u).asked earlier)).1 = ((resolve name).run (ofUnit u)).1 := by
  have fresh := remembers_ofUnit u
  have later := (@resolve_answers _ _ name (asked_remembers fresh earlier)).means List.not_mem_nil alone
  exact ⟨later, later.unique ((resolve_answers fresh).means List.not_mem_nil alone)⟩

/-- A list of nodes that refer to nodes, beside two structures that hold each other. -/
def nodesUnit : CompilationUnit := {
  span := .zero
  topLevel := [.types .zero [
    ⟨.zero, "Nodes", .array .zero [] (.named .zero "Node"), none⟩,
    ⟨.zero, "Node", .struct .zero [
      .mk .zero "value" (.named .zero "Speed") none,
      .mk .zero "next" (.ref .zero (.named .zero "Node")) none], none⟩,
    ⟨.zero, "Speed", .elementary .zero "INT" none, none⟩,
    ⟨.zero, "A", .struct .zero [.mk .zero "b" (.named .zero "B") none], none⟩,
    ⟨.zero, "B", .struct .zero [.mk .zero "a" (.named .zero "A") none], none⟩] []] }

/-- The nodes refer to themselves only, and what stands beside them does not matter. -/
theorem resolve_asked_nodes : (ofUnit nodesUnit).Untangled "Nodes" ∧
    ((resolve "Nodes").run ((ofUnit nodesUnit).asked ["A", "Node", "B"])).1 =
      ((resolve "Nodes").run (ofUnit nodesUnit)).1 := by
  have alone : (ofUnit nodesUnit).Untangled "Nodes" := by
    refine .of_rank (fun a => a ∈ ["Nodes", "Node", "Speed"])
      (fun a => if a = "Nodes" then 2 else if a = "Node" then 1 else 0) (by decide) ?_
    rintro a b ha ⟨spec, ⟨-, declares⟩, mentioned⟩
    simp only [List.mem_cons, List.not_mem_nil, or_false] at ha
    obtain rfl | rfl | rfl := ha
    all_goals
      cases declares
      revert b
      decide
  exact ⟨alone, (resolve_asked nodesUnit alone ["A", "Node", "B"]).2⟩

/-- Structures that hold each other.  Asked for first, `B` holds a structure `A`; asked for after
`A`, it holds an unknown type in its place. -/
theorem resolve_asked_mutual :
    ((resolve "B").run (ofUnit nodesUnit)).1 =
        .struct (some "B") [("a", .struct (some "A") [("b", .unknown)])] ∧
      ((resolve "B").run ((ofUnit nodesUnit).asked ["A"])).1 =
        .struct (some "B") [("a", .unknown)] ∧
      ((resolve "B").run ((ofUnit nodesUnit).asked ["A"])).1 ≠
        ((resolve "B").run (ofUnit nodesUnit)).1 := by
  have a : (ofUnit nodesUnit).Declares "A" (.struct .zero [.mk .zero "b" (.named .zero "B") none]) :=
    ⟨rfl, rfl⟩
  have b : (ofUnit nodesUnit).Declares "B" (.struct .zero [.mk .zero "a" (.named .zero "A") none]) :=
    ⟨rfl, rfl⟩
  have fresh : ((resolve "B").run (ofUnit nodesUnit)).1 =
      .struct (some "B") [("a", .struct (some "A") [("b", .unknown)])] := by
    have inner := resolve_eq (Nat.le_refl _)
      (@seek_pending _ (((ofUnit nodesUnit).opening "B").opening "A") "B" _ rfl b (by decide))
    rw [resolve_field rfl b List.not_mem_nil (resolve_field rfl a (by decide) inner)]
  have first : ((ofUnit nodesUnit).asked ["A"]).known.lookup "B" =
      some (.struct (some "B") [("a", .unknown)]) := by
    show (((resolve "A").run (ofUnit nodesUnit)).2).known.lookup "B" = _
    have inner := resolve_eq (Nat.le_refl _)
      (@seek_pending _ (((ofUnit nodesUnit).opening "A").opening "B") "A" _ rfl a (by decide))
    rw [resolve_field rfl a List.not_mem_nil (resolve_field rfl b (by decide) inner)]
    rfl
  have later : ((resolve "B").run ((ofUnit nodesUnit).asked ["A"])).1 =
      .struct (some "B") [("a", .unknown)] :=
    congrArg Prod.fst (resolve_eq (Nat.le_refl _) (seek_known first))
  refine ⟨fresh, later, ?_⟩
  rw [fresh, later]
  exact nofun

/-! ### Questions in a row -/

/-- Each of the questions is answered, and the answers do not turn on how many declarations may be
open at once, if these are as many as there are. -/
theorem mapM_seek_settles (names : List String) (r : Registry) :
    ∃ ts r', (∀ levels, r.closed ≤ levels → (names.mapM (seek levels)).run r = some (ts, r')) ∧
      r.Settles r' := by
  induction names generalizing r with
  | nil => exact ⟨[], r, fun _ _ => rfl, .refl r⟩
  | cons name names ih =>
    obtain ⟨t, r', first, kept⟩ := seek_settles name r
    obtain ⟨ts, r'', others, kept'⟩ := ih r'
    refine ⟨t :: ts, r'', fun levels enough => ?_, kept.trans kept'⟩
    rw [List.mapM_cons, StateT.run_bind, first levels enough]
    show ((names.mapM (seek levels)).run r').bind _ = _
    rw [others levels (kept.closed_eq ▸ enough)]
    rfl

/-- All questions about the types of a text are answered, however its declarations refer to each
other, and no more declarations than there are have to be open at once.  After some of the questions no
name is being resolved, and what is then found stays as it is while more are asked: it is
replaced by nothing else, and it has its name, so that no declaration that stands for it names
it anew. -/
theorem seek_lasts (specs : Keyed TypeSpec) (blocks : List String) (earlier later : List String) :
    ∃ ts r ts' r',
      (∀ levels, specs.length ≤ levels →
        (earlier.mapM (seek levels)).run { specs, blocks } = some (ts, r) ∧
          (later.mapM (seek levels)).run r = some (ts', r')) ∧
      r.pending = [] ∧ r'.pending = [] ∧
      ∀ name t, r.known.lookup name = some t →
        r'.known.lookup name = some t ∧ t.IsNamed := by
  obtain ⟨ts, r, first, kept⟩ := mapM_seek_settles earlier { specs, blocks }
  obtain ⟨ts', r', second, kept'⟩ := mapM_seek_settles later r
  refine ⟨ts, r, ts', r', fun levels enough => ⟨first levels ?_, second levels ?_⟩, kept.pending,
    kept'.pending.trans kept.pending, fun name t found => ⟨kept'.lookup found, ?_⟩⟩
  · exact Nat.le_trans (closed_le _) enough
  · rw [kept.closed_eq]
    exact Nat.le_trans (closed_le _) enough
  · exact kept.named (List.forall_mem_nil _) _ (Keyed.mem_of_lookup found)

/-- Two names that stand for each other are unknown, and both have to be open at once. -/
example :
    let circle : Registry := { specs := [("A", .named .zero "B"), ("B", .named .zero "A")] }
    ((seek 2 "A").run circle).map (·.1) = some .unknown ∧
      ((seek 1 "A").run circle).map (·.1) = none := by
  constructor <;> cbv

end Registry

end Plc

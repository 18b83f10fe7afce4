/-
Variables and types lie where they were read.

The annotations of variables that are declared together are read before the first name and after the
last one.  The ones after the names lie in each of the variables; the ones before lie in none.

* `takePragmas_between` — where annotations stand when they are taken;
* `initializer_lays` — initial values;
* `varDecls_spreads` — variables that are declared together;
* `typeSpec_spreads` — types.
-/
import Plc.Proofs.Nesting.Spread

namespace Plc.Grammar

variable {α β : Type} {e i : Rule Expr} {y : Rule TypeSpec}
variable {s x : Setting} {b c c' : Cursor} {m w : Bool} {ns : List Node}

/-! ### Names -/

/-- The rule reads one token, which is there. -/
def ReadsOne (word : Rule Token) : Prop :=
  ∀ ⦃s c t c'⦄, word s c = .ok t c' → advance s c = .ok t c' ∧ (s.next c).lexeme.isFinish = false

theorem lexeme_eq_ok {l : Lexeme} (hrun : lexeme s c = .ok l c') : l = (s.next c).lexeme ∧ c' = c := by
  cases hrun
  exact ⟨rfl, rfl⟩

theorem expectName_readsOne (expected : String) : ReadsOne (expectName expected) := by
  intro s c t c' hrun
  obtain ⟨l, c₁, hlexeme, hrun⟩ := bind_eq_ok_iff.1 hrun
  obtain ⟨here, rfl⟩ := lexeme_eq_ok hlexeme
  cases l with
  | name => exact ⟨hrun, congrArg Lexeme.isFinish here.symm⟩
  | _ => cases hrun

theorem expectAnyName_readsOne (expected : String) : ReadsOne (expectAnyName expected) := by
  intro s c t c' hrun
  obtain ⟨l, c₁, hlexeme, hrun⟩ := bind_eq_ok_iff.1 hrun
  obtain ⟨here, rfl⟩ := lexeme_eq_ok hlexeme
  cases l with
  | name => exact ⟨hrun, congrArg Lexeme.isFinish here.symm⟩
  | quotedName q =>
    obtain ⟨d, c₂, hdialect, hrun⟩ := bind_eq_ok_iff.1 hrun
    cases hdialect
    by_cases quoted : s.dialect.quotedNames = true
    · rw [if_pos quoted] at hrun
      exact ⟨hrun, congrArg Lexeme.isFinish here.symm⟩
    · rw [if_neg quoted] at hrun
      cases hrun
  | _ => cases hrun

namespace AtCursor

variable {word : Rule Token} {f : Token → Rule β} {Q : β → Assertion}

theorem name_rows (hword : ReadsOne word) (hb : InOrder x b)
    (h : Triple (Rows x b true []) (f (x.next b)) Q) : Triple (AtCursor x b) (word >>= f) Q := by
  rintro s c a c' ⟨rfl, rfl⟩ hrun
  obtain ⟨t, c₁, hname, hrest⟩ := bind_eq_ok_iff.1 hrun
  obtain ⟨hadvance, goes⟩ := hword hname
  exact advance hb (hb.some_of_lexeme goes) h ⟨rfl, rfl⟩ (bind_eq_ok_iff.2 ⟨t, c₁, hadvance, hrest⟩)

theorem name_spread (hword : ReadsOne word) (hb : Place x b)
    (h : Triple (Spread x b true false []) (f (x.next b)) Q) :
    Triple (AtCursor x b) (word >>= f) Q := by
  rintro s c a c' ⟨rfl, rfl⟩ hrun
  obtain ⟨t, c₁, hname, hrest⟩ := bind_eq_ok_iff.1 hrun
  obtain ⟨hadvance, goes⟩ := hword hname
  have some := hb.order.some_of_lexeme goes
  exact advance_spread hb some h ⟨rfl, rfl⟩ (bind_eq_ok_iff.2 ⟨t, c₁, hadvance, hrest⟩)

end AtCursor

theorem AtCursor.sees {t : Terminal} {f : Bool → Rule β} {Q : β → Assertion} (hb : InOrder x b)
    (h : ∀ yes, (yes = true → b.rest ≠ []) → Triple (AtCursor x b) (f yes) Q) :
    Triple (AtCursor x b) (Grammar.sees t >>= f) Q := by
  rintro s c a c' ⟨rfl, rfl⟩ hrun
  obtain ⟨yes, c₁, hsees, hrest⟩ := bind_eq_ok_iff.1 hrun
  cases hsees
  exact h _ (fun seen => hb.some_of_lexeme (Lexeme.goes_of_is seen)) ⟨rfl, rfl⟩ hrest

/-! ### Annotations -/

theorem pragmaOf_span (t : Token) : (pragmaOf t).span = t.span := by
  unfold pragmaOf
  split <;> rfl

theorem InOrder.next_le {t : Token} (h : InOrder s c) (mem : t ∈ c.rest) :
    (s.next c).span.start ≤ t.span.start := by
  obtain ⟨first, rest, parts⟩ := List.exists_cons_of_ne_nil (List.ne_nil_of_mem mem)
  rw [next_of_cons parts]
  rcases List.mem_cons.1 (parts ▸ mem) with rfl | later
  · exact Nat.le_refl _
  · exact Nat.le_trans first.span.ordered ((List.pairwise_cons.1 (parts ▸ h.row)).1 t later)

/-- Annotations stand after every token that was passed over before they are taken, and before the
next one. -/
theorem takePragmas_between {ps : List Pragma} (h : Waits s b) (on : Further b c)
    (order : InOrder s c) (hrun : takePragmas s c = .ok ps c') :
    ∀ p ∈ ps, (∀ u ∈ b.rest.take (c.index - b.index), u.span.stop ≤ p.span.start) ∧
      p.span.stop ≤ (s.next c).span.start := by
  obtain ⟨ts, c₁, htake, hrest⟩ := bind_eq_ok_iff.1 hrun
  obtain ⟨_, c₂, -, hpure⟩ := bind_eq_ok_iff.1 hrest
  cases hpure
  rw [takeWaiting_apply] at htake
  intro p hp
  split at htake
  · cases htake
    cases hp
  · next found =>
    cases htake
    obtain ⟨t, ht, rfl⟩ := List.mem_map.1 hp
    obtain ⟨front, back, parts, -⟩ := List.lookup_eq_some_iff.1 found
    have mem : (c.index, ts) ∈ c.pragmas := parts ▸ List.mem_append_right _ List.mem_cons_self
    rw [pragmaOf_span]
    exact h.between on order mem ht

namespace Spread

/-- Annotations that are taken later lie after the first token. -/
theorem takePragmas : Triple (Spread x b true w ns) takePragmas
    fun ps => Spread x b true true (ns ++ ps.map .pragma) := by
  intro s c ps c' sp hrun
  have after := quiet moves.takePragmas_rel sp.wait hrun
  obtain ⟨some, -, counted⟩ := sp.passed rfl
  obtain rfl := sp.setting
  have between := takePragmas_between sp.begins.waits sp.further sp.stands hrun
  have first : s.next b ∈ b.rest.take (c.index - b.index) := by
    obtain ⟨t, rest, parts⟩ := List.exists_cons_of_ne_nil some
    obtain ⟨k, count⟩ := Nat.exists_eq_add_of_lt counted
    have one : c.index - b.index = k + 1 := by omega
    rw [next_of_cons parts, parts, one, List.take_succ_cons]
    exact List.mem_cons_self
  refine { after with lies := List.forall_mem_append.2 ⟨after.lies, List.forall_mem_map.2 ?_⟩ }
  intro p hp
  obtain ⟨low, high⟩ := between p hp
  have on := proceeds.takePragmas_rel s c sp.stands
  rw [hrun] at on
  have later : (s.next c).span.start ≤ (s.next c').span.start := on.2.start_le on.1
  refine .above ?_ ?_ (List.forall_mem_nil _)
  · exact Nat.le_trans (s.next b).span.ordered (low _ first)
  · exact Nat.le_trans high later

theorem headerExtras : Triple (Spread x b true w ns) headerExtras
    fun extras => Spread x b true true (ns ++ extras.2.map .pragma) := by
  refine Triple.bind takePragmas fun before => ?_
  refine Triple.bind (quiet moves.blockAttributes_rel) fun attributes => ?_
  refine Triple.bind takePragmas fun after => .pure fun s c sp => ?_
  rwa [List.map_append, ← List.append_assoc]

end Spread

/-! ### Initial values -/

/-- Items with commas between them, as long as there are more. -/
theorem Rows.listed {item : Rule α} {top : α → Node} {spanOf : α → Span} {more : Rule Bool}
    (hmore : Proceeds more) (hitem : Lays item fun a => [top a]) (n size : Nat) :
    Triple (Rows x b m ns) (Grammar.listed more item spanOf n size)
      fun xs => Rows x b m (ns ++ xs.map top) := by
  have both {r : Rule Bool} (h : Proceeds r) (xs : List α) : Triple (Rows x b m (ns ++ xs.map top)) r
      fun yes => cond yes (Rows x b m (ns ++ xs.map top)) (Rows x b m (ns ++ xs.map top)) :=
    (quiet h).post fun yes _ _ rows => by cases yes <;> exact rows
  have loop : Triple _ (Grammar.listed more item spanOf n size) _ :=
    Triple.listed (both hmore) (both (proceeds.accept_rel _)) (fun _ _ _ => Triple.checkSize _ _)
      (Rows.next hitem) n size []
  simpa only [List.map_nil, List.append_nil, List.nil_append] using loop

theorem arrayElement_lays (hi : Lays i fun v => [.expr v]) :
    Lays (arrayElement i) fun v => [.expr v] := by
  intro x b hb
  refine AtCursor.peek ?_
  split
  · next n h =>
    refine Triple.bind (Triple.look fun _ _ => rfl) fun paren =>
      .ite (fun _ => ?_) fun _ => hi x b hb
    refine AtCursor.advance hb (hb.some_of_eq h rfl) ?_
    refine Triple.bind (Rows.quiet proceeds.advance) fun _ => ?_
    refine Triple.bind (Rows.quiet (proceeds.sees_rel _)) fun empty => ?_
    have close (value : Option Expr) : Triple (Rows x b true (value.toList.map .expr)) (do
        let _ ← expect Mark.rightParen
        node (x.next b).span fun s => Expr.repeated s n value) fun v => Rows x b false [.expr v] := by
      refine Triple.bind (Rows.quiet (proceeds.expect_rel _)) fun _ => ?_
      exact Rows.node (fun s => .expr (.repeated s n value)) fun s => ⟨rfl, rfl, List.Sublist.refl _⟩
    refine .ite (fun _ => close none) fun _ => ?_
    rw [map_eq_pure_bind, bind_assoc]
    exact Triple.bind (Rows.lay hi) fun value => close (some value)
  · exact hi x b hb

theorem arrayInit_opens (hi : Lays i fun v => [.expr v]) :
    Opens (arrayInit i) fun v => [.expr v] := by
  intro x b hb more
  refine AtCursor.advance hb more (Triple.bind Triple.passes fun n => ?_)
  have goesOn : Proceeds do return !(← sees Mark.rightBracket) :=
    Proceeds.bind (proceeds.sees_rel _) fun _ => proceeds.pure _
  refine Triple.bind (Rows.listed goesOn (arrayElement_lays hi) n 0) fun elements => ?_
  refine Triple.bind (Rows.quiet (proceeds.expectClosing_rel _ _ _)) fun _ => ?_
  exact Rows.node (fun s => .expr (.arrayInit s elements)) fun s => ⟨rfl, rfl, List.Sublist.refl _⟩

theorem fieldInit_lays (hi : Lays i fun v => [.expr v]) : Lays (fieldInit i) fun a => [.arg a] := by
  intro x b hb
  refine AtCursor.name_rows (expectName_readsOne _) hb ?_
  refine Triple.bind (Rows.quiet (proceeds.expect_rel _)) fun _ => ?_
  refine Triple.bind (Rows.lay hi) fun value => ?_
  exact Rows.node (fun s => .arg (.named s _ value)) fun s => ⟨rfl, rfl, List.Sublist.refl _⟩

theorem structInit_opens (hi : Lays i fun v => [.expr v]) :
    Opens (structInit i) fun v => [.expr v] := by
  intro x b hb more
  refine AtCursor.advance hb more (Triple.bind Triple.passes fun n => ?_)
  refine Triple.bind (Rows.listed (proceeds.pure true) (fieldInit_lays hi) n 0) fun fields => ?_
  refine Triple.bind (Rows.quiet (proceeds.expectClosing_rel _ _ _)) fun _ => ?_
  exact Rows.node (fun s => .expr (.structInit s fields)) fun s => ⟨rfl, rfl, List.Sublist.refl _⟩

theorem initializer_lays (levels : Nat) : Lays (initializer levels) fun v => [.expr v] := by
  induction levels with
  | zero => exact .tooDeep
  | succ levels ih =>
    refine Lays.nested fun x b hb => ?_
    refine AtCursor.sees hb fun yes bracket => .ite (fun seen => ?_) fun _ => ?_
    · exact arrayInit_opens ih x b hb (bracket seen)
    refine AtCursor.sees hb fun yes paren => ?_
    refine Triple.bind (Triple.look fun _ _ => rfl) fun field => ?_
    refine Triple.bind (Triple.look fun _ _ => rfl) fun assign => .ite (fun all => ?_) fun _ => ?_
    · simp only [Bool.and_eq_true] at all
      exact structInit_opens ih x b hb (paren all.1.1)
    · exact expression_lays levels x b hb

/-! ### Variables -/

/-- The token is passed over between the place `b` and the current one. -/
def PassedOver (b : Cursor) (t : Token) (c : Cursor) : Prop :=
  t ∈ b.rest.take (c.index - b.index) ∧ t.span.stop ≤ c.lastStop

theorem PassedOver.keep {t : Token} (h : PassedOver b t c) (order : InOrder s c) (on : Onward s c c')
    (fed : Further c c') : PassedOver b t c' :=
  ⟨fed.take_subset h.1, Nat.le_trans h.2 (on.lastStop_le order)⟩

theorem PassedOver.advance {t : Token} (on : Further b c) (some : c.rest ≠ [])
    (hrun : advance s c = .ok t c') : PassedOver b t c' := by
  have one : Triple (fun s' c' => s' = s ∧ c' = c) Grammar.advance fun t _ c' => PassedOver b t c' := by
    refine Triple.advance (fun s c h => h.2 ▸ some) ?_
    rintro _ c t rest ⟨rfl, rfl⟩ parts
    have index := on.index
    have count : (Triple.past c t rest).index - b.index = (c.index - b.index) + 1 :=
      Nat.sub_add_comm index
    refine ⟨?_, Nat.le_refl _⟩
    rw [count, List.take_add, ← on.rest, parts]
    exact List.mem_append_right _ List.mem_cons_self
  exact one ⟨rfl, rfl⟩ hrun

/-- Between the names of variables stand only commas. -/
theorem names_spread (hb : Place x b) (expected : String) :
    Triple (AtCursor x b) (commaList (expectAnyName expected) Token.span) fun names s c =>
      Spread x b false false [] s c ∧ ∀ t ∈ names, PassedOver b t c := by
  let read (names : List Token) : Assertion := fun s c =>
    Spread x b false false [] s c ∧ ∀ t ∈ names, PassedOver b t c
  -- The names read so far stay passed over, whatever token comes next.
  have quiet {γ : Type} {r : Rule γ} (h : Moves r) (names : List Token) :
      Triple (read names) r fun _ => read names := by
    intro s c a c' before hrun
    obtain rfl := before.1.setting
    have stands := before.1.stands
    have moved := h s c
    rw [hrun] at moved
    exact ⟨Spread.quiet h before.1 hrun,
      fun t ht => (before.2 t ht).keep stands (moved.1 stands).2 moved.2⟩
  have comma (names : List Token) : Triple (read names) (accept Mark.comma)
      fun yes => cond yes (read names) (read names) :=
    (quiet (moves.accept_rel _) names).post fun yes s c h => by cases yes <;> exact h
  have word (names : List Token) : Triple (read names) (expectAnyName expected)
      fun t => read (names ++ [t]) := by
    intro s c t c' before hrun
    obtain ⟨hadvance, goes⟩ := expectAnyName_readsOne expected hrun
    have after := quiet (moves.expectAnyName_rel expected) names before hrun
    refine ⟨after.1, List.forall_mem_append.2 ⟨after.2, List.forall_mem_singleton.2 ?_⟩⟩
    exact .advance before.1.further (before.1.more goes) hadvance
  refine (Triple.commaList comma word).imp fun s c h => ?_
  obtain ⟨rfl, rfl⟩ := h
  exact ⟨Spread.here hb, List.forall_mem_nil _⟩

/-- What variables that are declared together share lies between each of their names and the last
token read, but for annotations that come before the name. -/
def Shared (x : Setting) (b : Cursor) (names : List Token) (nodes : List Node) : Assertion :=
  fun _ c => ∀ name ∈ names, (x.next b).span.start ≤ name.span.start ∧ name.span.stop ≤ c.lastStop ∧
    ∀ k ∈ nodes, k.Lies name.span.start c.lastStop ∨
      ∃ p, k = .pragma p ∧ p.span.stop ≤ name.span.start

theorem declareEach_spread {type : TypeSpec} {initial : Option Expr} {pragmas : List Pragma}
    {nodes : List Node}
    (shared : .typeSpec type :: initial.toList.map .expr ++ pragmas.map .pragma ⊆ nodes)
    (address : Option String) (names : List Token) :
    Triple (fun s c => Spread x b m false ns s c ∧ Shared x b names nodes s c)
      (declareEach type address initial pragmas names)
      fun ds => Spread x b m false (ns ++ ds.map .varDecl) := by
  -- Induction on the names; every declaration starts at its own name and ends where the last token
  -- did.
  induction names generalizing ns with
  | nil => exact .pure fun s c h => by rw [List.map_nil, List.append_nil]; exact h.1
  | cons name names ih =>
    have still : Still fun s c => Spread x b m false ns s c ∧ Shared x b (name :: names) nodes s c := by
      rintro s c c' stays ⟨sp, all⟩
      refine ⟨Spread.still stays sp, ?_⟩
      unfold Shared
      rwa [stays.lastStop]
    refine Triple.bind (R := fun d s c => Spread x b m false (ns ++ [Node.varDecl d]) s c ∧
      Shared x b names nodes s c) ?_ fun d => ?_
    · refine still.nodeAt fun span s c ⟨sp, all⟩ first last => ?_
      obtain ⟨⟨low, high, below⟩, others⟩ := List.forall_mem_cons.1 all
      have stop : span.stop = c.lastStop := last.trans (Nat.max_eq_left high)
      refine ⟨{ sp with lies := List.forall_mem_append.2 ⟨sp.lies, List.forall_mem_singleton.2 ?_⟩ },
        others⟩
      refine .above (Nat.le_trans low (Nat.le_of_eq first.symm)) (Nat.le_of_eq stop) fun k hk => ?_
      -- What all of them share lies behind the name, or is an annotation in front of it.
      rcases below k (shared hk) with lies | ⟨p, rfl, before⟩
      · refine .inl ?_
        show k.Lies span.start span.stop
        rwa [first, stop]
      · exact .inr ⟨_, p, rfl, rfl, Nat.le_trans before (Nat.le_of_eq first.symm)⟩
    · refine Triple.bind ih fun ds => .pure fun s c sp => ?_
      rwa [List.append_assoc] at sp

/-- The names are passed over from `b` to `c`.  The early annotations come before them; the late ones
come between them and what is read from `c` on. -/
theorem shared_of_spread {names : List Token} {early late : List Pragma}
    (before : Spread x b false false [] s c) (passed : ∀ t ∈ names, PassedOver b t c)
    (hearly : ∀ p ∈ early, p.span.stop ≤ (x.next b).span.start)
    (hlate : ∀ p ∈ late, (∀ u ∈ b.rest.take (c.index - b.index), u.span.stop ≤ p.span.start) ∧
      p.span.stop ≤ (x.next c).span.start)
    (h : Spread x c true false ns s c') :
    Shared x b names (ns ++ (early ++ late).map .pragma) s c' := by
  intro name mem
  obtain ⟨there, reached⟩ := passed name mem
  obtain ⟨-, further, -⟩ := h.passed rfl
  have first : (x.next b).span.start ≤ name.span.start :=
    before.begins.order.next_le (List.mem_of_mem_take there)
  have inner := name.span.ordered
  have next := (x.next c).span.ordered
  have gap : c.lastStop ≤ (x.next c).span.start := before.stands.lastStop_le
  have stop : c.lastStop ≤ c'.lastStop := h.onward.lastStop_le before.stands
  refine ⟨first, Nat.le_trans reached stop, fun k hk => ?_⟩
  -- A node of the shared part lies behind the names. A pragma is either before the first of them or
  -- behind the last.
  rcases List.mem_append.1 hk with hk | hk
  · exact .inl ((h.lies k hk).mono (by omega) (Nat.le_refl _))
  · obtain ⟨p, hp, rfl⟩ := List.mem_map.1 hk
    rcases List.mem_append.1 hp with hp | hp
    · exact .inr ⟨p, rfl, Nat.le_trans (hearly p hp) first⟩
    · obtain ⟨low, high⟩ := hlate p hp
      refine .inl (.above (Nat.le_trans inner (low name there)) ?_ (List.forall_mem_nil _))
      show p.span.stop ≤ c'.lastStop
      omega

theorem varDecls_spreads (hy : Spreads y fun t => [.typeSpec t]) (hi : Spreads i fun v => [.expr v]) :
    Spreads (varDecls y i) (List.map .varDecl) := by
  rintro x b hb s c ds c' ⟨rfl, rfl⟩ hrun
  obtain ⟨early, c₁, hearly, hrun⟩ := bind_eq_ok_iff.1 hrun
  obtain ⟨names, c₂, hnames, hrun⟩ := bind_eq_ok_iff.1 hrun
  obtain ⟨late, c₃, hlate, hrun⟩ := bind_eq_ok_iff.1 hrun
  have first := Spread.quiet moves.takePragmas_rel (Spread.here hb) hearly
  obtain ⟨second, passed⟩ := names_spread first.place _ ⟨rfl, rfl⟩ hnames
  have third := Spread.quiet moves.takePragmas_rel (Spread.here second.place) hlate
  have ahead : ∀ p ∈ early, p.span.stop ≤ (s.next c₁).span.start := fun p hp =>
    Nat.le_trans (takePragmas_between hb.waits (.refl c) hb.order hearly p hp).2
      (first.onward.start_le first.stands)
  have between := takePragmas_between first.place.waits second.further second.stands hlate
  -- what comes after the names is read from where they end
  have rest : Triple (Spread s c₂ false false []) (do
      let address ← placeOf
      let _ ← expect Mark.colon
      let type ← y
      let initial ← if ← accept Mark.assign then some <$> i else pure none
      expectSemicolon
      declareEach type address initial (early ++ late) names)
      fun ds => Spread s c₁ false false (ds.map .varDecl) := by
    refine Triple.bind (Spread.quiet moves.placeOf_rel) fun address => ?_
    refine Triple.bind (Spread.expect _) fun _ => Triple.bind (Spread.spread hy) fun type => ?_
    refine Triple.bind (Spread.quiet (moves.accept_rel _)) fun yes => ?_
    refine Spread.optional hi fun initial => ?_
    refine Triple.bind (Spread.quiet moves.expectSemicolon_rel) fun _ => ?_
    refine Triple.imp (P := fun s' c' => Spread s c₁ false false [] s' c' ∧ Shared s c₁ names
      (Node.typeSpec type :: initial.toList.map Node.expr ++ (early ++ late).map Node.pragma) s' c')
      (declareEach_spread (List.Subset.refl _) address names) fun s' c' sp => ?_
    obtain rfl := sp.setting
    exact ⟨(second.join sp).sub (List.nil_subset _), shared_of_spread second passed ahead between sp⟩
  exact first.join (rest third hrun)

/-- A field stands where the variable does that it is made of. -/
theorem fieldsOf_spread {ds : List VarDecl} (known : ds.map .varDecl ⊆ ns) (size : Nat) :
    Triple (Spread x b m w ns) (fieldsOf size ds)
      fun fs => Spread x b m w (ns ++ fs.map .structField) := by
  induction ds generalizing ns size with
  | nil => exact .pure fun s c sp => by rwa [List.map_nil, List.append_nil]
  | cons d ds ih =>
    rw [List.map_cons, List.cons_subset] at known
    have field : Triple (Spread x b m w ns) (node d.span fun s => StructField.mk s d.name d.type d.initial)
        fun f => Spread x b m w (ns ++ [Node.structField f]) := by
      refine Spread.rewrap (k := .varDecl d) (fun s => .structField (.mk s d.name d.type d.initial))
        known.1 fun s => ⟨rfl, rfl, List.subset_append_left _ _, ?_⟩
      simp [Node.children]
    refine Triple.bind field fun f => Triple.bind (Triple.checkSize _ _) fun _ => ?_
    refine Triple.bind (ih (List.subset_append_of_subset_left _ known.2) _) fun fs => ?_
    refine .pure fun s c sp => ?_
    rwa [List.append_assoc] at sp

/-! ### Types -/

theorem before_foresees (close : Keyword) : Spread.Foresees (before close) := by
  intro P
  refine Triple.bind Triple.lexeme fun l => .pure fun s c h => ⟨h.1, fun yes => ?_⟩
  rw [Bool.not_eq_true', Bool.or_eq_false_iff] at yes
  exact (congrArg Lexeme.isFinish h.2).trans yes.1

theorem structType_spans (hy : Spreads y fun t => [.typeSpec t]) (hi : Spreads i fun v => [.expr v]) :
    Spans (structType y i) fun t => [.typeSpec (.struct t.1 t.2)] := by
  intro x b hb some
  refine AtCursor.advance_spread hb some (Triple.bind Triple.passes fun n => ?_)
  refine Triple.bind (Spread.many Node.structField (before_foresees _) (fun size x b hb _ => ?_) n 0)
    fun fields => Spread.unlessEnd (Triple.bind Spread.advance fun _ => ?_)
  · refine Triple.bind (varDecls_spreads hy hi x b hb) fun ds => ?_
    refine (fieldsOf_spread (List.Subset.refl _) size).post fun fs s c sp => ?_
    exact sp.sub (List.subset_append_right _ _)
  · exact Spread.node (fun s => .typeSpec (.struct s fields)) fun s => ⟨rfl, rfl, List.Subset.refl _⟩

theorem dimension_lays (he : Lays e fun v => [.expr v]) :
    Lays (dimension e) fun d => [.dimension d] := by
  intro x b hb
  refine AtCursor.peek (Triple.bind (he x b hb) fun low => ?_)
  refine Triple.bind (Rows.quiet (proceeds.expect_rel _)) fun _ => ?_
  refine Triple.bind (Rows.lay he) fun high => ?_
  exact Rows.nodeOver (fun s => .dimension ⟨s, low, high⟩) List.mem_cons_self rfl
    fun s => ⟨rfl, rfl, List.Sublist.refl _⟩

theorem enumMember_lays (he : Lays e fun v => [.expr v]) :
    Lays (enumMember e) fun d => [.enumMember d] := by
  intro x b hb
  refine AtCursor.name_rows (expectName_readsOne _) hb ?_
  refine Triple.bind (Rows.accept _) fun yes => Rows.optional he fun value => ?_
  exact Rows.node (fun s => .enumMember ⟨s, _, value⟩) fun s => ⟨rfl, rfl, List.Sublist.refl _⟩

/-- Items with commas between them that stand side by side. -/
theorem Spreads.commaList {r : Rule α} {top : α → Node} {spanOf : α → Span}
    (h : Lays r fun a => [top a]) (hm : Moves r) :
    Spreads (Grammar.commaList r spanOf) (List.map top) :=
  .of_lays (.of_rows fun _ _ => Rows.commaList h) hm.commaList

section Expressions

variable (he : Lays e fun v => [.expr v]) (hm : Moves e)
include he hm

theorem arrayType_spans (hy : Spreads y fun t => [.typeSpec t]) :
    Spans (arrayType e y) fun t => [.typeSpec t] := by
  intro x b hb some
  have dims : Spreads (commaList (dimension e) Dimension.span) (List.map .dimension) :=
    .commaList (dimension_lays he) (@Congruence.dimension_rel _ _ e e moves.toCongruence hm)
  refine AtCursor.advance_spread hb some ?_
  refine Triple.bind (Spread.quiet (moves.expect_rel _)) fun opener => ?_
  refine Triple.bind (Spread.spread dims) fun dims => ?_
  refine Triple.bind (Spread.quiet (moves.expectClosing_rel _ _ _)) fun _ => ?_
  refine Triple.bind (Spread.quiet (moves.expect_rel _)) fun _ => ?_
  refine Triple.bind (Spread.spread hy) fun element => ?_
  exact Spread.node (fun s => .typeSpec (.array s dims element)) fun s => ⟨rfl, rfl, List.Subset.refl _⟩

theorem lengthOf_spread : Triple (Spread x b m w ns) (lengthOf e)
    fun o => Spread x b m w (ns ++ o.toList.map .expr) := by
  have closed (t : Terminal) : Triple (Spread x b m w ns) (do
      let v ← e
      let _ ← expect t
      return some v) fun o => Spread x b m w (ns ++ o.toList.map Node.expr) := by
    refine Triple.bind (Spread.spread (.of_lays he hm)) fun v => ?_
    exact Triple.bind (Spread.quiet (moves.expect_rel _)) fun _ => .pure fun s c sp => sp
  refine Triple.bind (Spread.quiet (moves.accept_rel _)) fun yes => .ite (fun _ => closed _) fun _ => ?_
  refine Triple.bind (Spread.quiet (moves.accept_rel _)) fun yes => .ite (fun _ => closed _) fun _ => ?_
  exact .pure fun s c sp => by rwa [Option.toList_none, List.map_nil, List.append_nil]

theorem stringType_spans (name : Keyword) : Spans (stringType e name) fun t => [.typeSpec t] := by
  intro x b hb some
  refine AtCursor.advance_spread hb some (Triple.bind (lengthOf_spread he hm) fun length => ?_)
  exact Spread.node (fun s => .typeSpec (.elementary s name.spelling length))
    fun s => ⟨rfl, rfl, List.Subset.refl _⟩

theorem namedType_spreads : Spreads (namedType e) fun t => [.typeSpec t] := by
  intro x b hb
  refine AtCursor.name_spread (expectAnyName_readsOne _) hb ?_
  have bound (v : List Node) : Triple (Spread x b true false v) e
      fun a => Spread x b true false (v ++ [Node.expr a]) := Spread.spread (.of_lays he hm)
  dsimp only
  split
  · refine (Spread.node (fun s => .typeSpec (.named s _)) fun s => ⟨rfl, rfl, List.nil_subset _⟩).post
      fun t s c sp => sp.forget
  · next base _ =>
    refine Triple.bind (Spread.quiet (moves.accept_rel _)) fun yes => .ite (fun _ => ?_) fun _ => ?_
    · refine Triple.bind (bound _) fun low => ?_
      refine Triple.bind (Spread.quiet (moves.expect_rel _)) fun _ => ?_
      refine Triple.bind (bound _) fun high => ?_
      refine Triple.bind (Spread.quiet (moves.expect_rel _)) fun _ => ?_
      exact (Spread.node (fun s => .typeSpec (.subrange s base low high))
        fun s => ⟨rfl, rfl, List.Subset.refl _⟩).post fun t s c sp => sp.forget
    · exact (Spread.node (fun s => .typeSpec (.elementary s base none))
        fun s => ⟨rfl, rfl, List.nil_subset _⟩).post fun t s c sp => sp.forget

theorem enumType_spans : Spans (enumType e) fun t => [.typeSpec t] := by
  intro x b hb some
  have each : Spreads (commaList (enumMember e) EnumMember.span) (List.map .enumMember) :=
    .commaList (enumMember_lays he) (@Congruence.enumMember_rel _ _ e e moves.toCongruence hm)
  refine AtCursor.advance_spread hb some (Triple.bind (Spread.spread each) fun members => ?_)
  refine Triple.bind (Spread.quiet (moves.expectClosing_rel _ _ _)) fun _ => ?_
  refine Triple.bind (Spread.quiet (Congruence.builtInOf_rel moves.toCongruence)) fun base => ?_
  exact Spread.node (fun s => .typeSpec (.enum s members base)) fun s => ⟨rfl, rfl, List.Subset.refl _⟩

theorem typeSpecBody_spreads (hi : Spreads i fun v => [.expr v])
    (hy : Spreads y fun t => [.typeSpec t]) : Spreads (typeSpecBody e i y) fun t => [.typeSpec t] := by
  intro x b hb
  -- A type that begins with a word of its own has a token to begin with; a name may be missing.
  have spans {r : Rule TypeSpec} (h : Spans r fun t => [.typeSpec t]) {l : Lexeme}
      (here : (x.next b).lexeme = l) (goes : l.isFinish = false) :
      Triple (AtCursor x b) r fun t => Spread x b false false [.typeSpec t] :=
    (h x b hb (hb.order.some_of_eq here goes)).post fun t s c sp => sp.forget
  have referent : Triple (Spread x b true false []) (do
      let inner ← y
      node (x.next b).span fun s => TypeSpec.ref s inner) fun t => Spread x b false false [.typeSpec t] := by
    refine Triple.bind (Spread.spread hy) fun inner => ?_
    exact (Spread.node (fun s => .typeSpec (.ref s inner)) fun s => ⟨rfl, rfl, List.Subset.refl _⟩).post
      fun t s c sp => sp.forget
  refine AtCursor.peek ?_
  split
  · next h => exact spans (arrayType_spans he hm hy) h rfl
  · next h =>
    refine Triple.bind (structType_spans hy hi x b hb (hb.order.some_of_eq h rfl)) fun t => ?_
    exact .pure fun s c sp => sp.forget
  · next h => exact AtCursor.advance_spread hb (hb.order.some_of_eq h rfl) referent
  · next h => exact spans (stringType_spans he hm _) h rfl
  · next h => exact spans (stringType_spans he hm _) h rfl
  · next h =>
    refine Triple.bind (Triple.look fun _ _ => rfl) fun next => .ite (fun _ => ?_) fun _ => ?_
    · refine AtCursor.advance_spread hb (hb.order.some_of_eq h rfl) ?_
      exact Triple.bind (Spread.quiet moves.advance) fun _ => referent
    · exact namedType_spreads he hm x b hb
  · exact namedType_spreads he hm x b hb
  · exact .failInvalid _

end Expressions

/-! ### By levels -/

theorem moves_expression (levels : Nat) : Moves (expression levels) :=
  Congruence.expression_rel moves.toCongruence (.refl levels)

theorem initializer_spreads (levels : Nat) : Spreads (initializer levels) fun v => [.expr v] :=
  .of_lays (initializer_lays levels) (Congruence.initializer_rel moves.toCongruence (.refl levels))

theorem typeSpec_spreads (levels : Nat) : Spreads (typeSpec levels) fun t => [.typeSpec t] := by
  induction levels with
  | zero => exact .tooDeep
  | succ levels ih =>
    exact .nested (typeSpecBody_spreads (expression_lays levels) (moves_expression levels)
      (initializer_spreads levels) ih)

end Plc.Grammar

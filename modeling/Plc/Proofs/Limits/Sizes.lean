/-
Lists and strings within their bounds.

A list is checked while it grows, and a string when it is passed over; what a rule gives therefore
fits, whatever place it began at.

* `Node.Fits` — the lists of one node, and the string it stands for, are within their bounds;
* `Ensures` — what holds of every result of a rule under some limits;
* `Ensures.many`, `Ensures.listed`, `Ensures.commaList` — the lists that loops give;
* `expression_ensures` — everything in an expression fits.
-/
import Plc.Proofs.NodeCount.Expr

namespace Plc

open Grammar

/-! ### Sizes of nodes -/

namespace Node

/-- The lengths of the lists that a part of a statement or of an expression has. -/
def lengths : Node → List Nat
  | .expr (.variable (.element _ _ indices)) => [indices.length]
  | .expr (.call _ _ args) => [args.length]
  | .expr (.arrayInit _ elements) => [elements.length]
  | .expr (.structInit _ fields) => [fields.length]
  | .stmt (.ifThen _ _ elsifs otherwise) => [elsifs.length, (otherwise.getD []).length]
  | .stmt (.caseOf _ _ branches otherwise) => [branches.length, (otherwise.getD []).length]
  | .stmt (.forLoop _ _ _ _ _ body) | .stmt (.whileLoop _ _ body) | .stmt (.repeatLoop _ body _)
  | .stmt (.region _ _ body) => [body.length]
  | .stmt (.invoke _ _ args) => [args.length]
  | .ifBranch (.mk _ _ body) => [body.length]
  | .caseBranch (.mk _ selectors body) => [selectors.length, body.length]
  | _ => []

/-- The number of characters of a string literal; other nodes have none to count. -/
def characters? : Node → Option Nat
  | .expr (.literal _ l) => stringLength? l.value
  | _ => none

/-- No list of the node, and no string that it stands for, is longer than allowed. -/
def Fits (l : Limits) (n : Node) : Prop :=
  (∀ k ∈ n.lengths, k ≤ l.maxCollectionSize) ∧ ∀ k ∈ n.characters?, k ≤ l.maxStringLength

instance (l : Limits) (n : Node) : Decidable (n.Fits l) :=
  inferInstanceAs (Decidable (_ ∧ _))

end Node

variable {l : Limits}

/-- A node without lists that is no literal. -/
theorem fits_plain {n : Node} (h : n.lengths = []) (h' : n.characters? = none) :
    n.Fits l := by
  rw [Node.Fits, h, h']
  exact ⟨nofun, nofun⟩

/-- A node with one list that is not too long. -/
theorem fits_list {n : Node} {k : Nat} (h : k ≤ l.maxCollectionSize)
    (one : n.lengths = [k]) (h' : n.characters? = none) : n.Fits l := by
  rw [Node.Fits, one, h']
  exact ⟨List.forall_mem_singleton.2 h, nofun⟩

/-- A node with two lists that are not too long. -/
theorem fits_lists {n : Node} {j k : Nat} (h : j ≤ l.maxCollectionSize)
    (h' : k ≤ l.maxCollectionSize) (two : n.lengths = [j, k])
    (none : n.characters? = none) : n.Fits l := by
  rw [Node.Fits, two, none]
  exact ⟨List.forall_mem_cons.2 ⟨h, List.forall_mem_singleton.2 h'⟩, nofun⟩

/-- All nodes fit. -/
def Fit (l : Limits) (ns : List Node) : Prop := ∀ n ∈ ns, n.Fits l

instance (l : Limits) (ns : List Node) : Decidable (Fit l ns) :=
  inferInstanceAs (Decidable (∀ n ∈ ns, n.Fits l))

@[simp] theorem fit_nil : Fit l [] := List.forall_mem_nil _

@[simp] theorem fit_cons {n : Node} {ns : List Node} : Fit l (n :: ns) ↔ n.Fits l ∧ Fit l ns :=
  List.forall_mem_cons

@[simp] theorem fit_append {ms ns : List Node} : Fit l (ms ++ ns) ↔ Fit l ms ∧ Fit l ns :=
  List.forall_mem_append

theorem fit_flatMap {α : Type} {f : α → List Node} {xs : List α} :
    Fit l (xs.flatMap f) ↔ ∀ x ∈ xs, Fit l (f x) := by
  simp only [Fit, List.mem_flatMap]
  constructor
  · exact fun h x hx n hn => h n ⟨x, hx, hn⟩
  · rintro h n ⟨x, hx, hn⟩
    exact h x hx n hn

theorem fit_exprs {es : List Expr} : Fit l (Expr.nodesAll es) ↔ ∀ e ∈ es, Fit l e.nodes := by
  rw [← Expr.flatMap_nodes, fit_flatMap]

theorem fit_args {as : List Arg} : Fit l (Arg.nodesAll as) ↔ ∀ a ∈ as, Fit l a.nodes := by
  rw [← Arg.flatMap_nodes, fit_flatMap]

/-- An expression at another place fits as well. -/
theorem fit_withSpan {e : Expr} (s : Span) (h : Fit l e.nodes) : Fit l (e.withSpan s).nodes := by
  cases e with
  | «variable» v =>
    cases v <;> exact fit_cons.2 ⟨(fit_cons.1 h).1, (fit_cons.1 h).2⟩
  | repeated _ _ x =>
    cases x <;> exact fit_cons.2 ⟨(fit_cons.1 h).1, (fit_cons.1 h).2⟩
  | _ => exact fit_cons.2 ⟨(fit_cons.1 h).1, (fit_cons.1 h).2⟩

namespace Grammar

variable {α β γ : Type}

/-! ### Results -/

/-- Whatever the rule gives under the limits satisfies `P`. -/
def Ensures (l : Limits) (r : Rule α) (P : α → Prop) : Prop :=
  ∀ ⦃s c a c'⦄, s.limits = l → r s c = .ok a c' → P a

namespace Ensures

variable {r : Rule α} {P P' : α → Prop} {Q : β → Prop} {f : α → Rule β}

theorem of_triple (h : Triple (fun s _ => s.limits = l) r fun a _ _ => P a) : Ensures l r P :=
  fun _ _ _ _ hs hrun => h hs hrun

theorem bind (hr : Ensures l r P) (hf : ∀ a, P a → Ensures l (f a) Q) : Ensures l (r >>= f) Q := by
  intro s c b c' hs hrun
  obtain ⟨a, c₁, hfirst, hrest⟩ := bind_eq_ok_iff.1 hrun
  exact hf a (hr hs hfirst) hs hrest

/-- Nothing need be known of the first result. -/
theorem skip (hf : ∀ a, Ensures l (f a) Q) : Ensures l (r >>= f) Q :=
  bind (P := fun _ => True) (fun _ _ _ _ _ _ => trivial) fun a _ => hf a

theorem pure {a : α} (h : P a) : Ensures l (pure a) P := by
  rintro s c b c' - ⟨⟩
  exact h

theorem imp (h : Ensures l r P) (hp : ∀ a, P a → P' a) : Ensures l r P' :=
  fun _ _ _ _ hs hrun => hp _ (h hs hrun)

theorem and (h : Ensures l r P) (h' : Ensures l r P') : Ensures l r fun a => P a ∧ P' a :=
  fun _ _ _ _ hs hrun => ⟨h hs hrun, h' hs hrun⟩

theorem map {g : α → β} (h : Ensures l r P) (hq : ∀ a, P a → Q (g a)) : Ensures l (g <$> r) Q := by
  rw [map_eq_pure_bind]
  exact h.bind fun a ha => .pure (hq a ha)

theorem ite {p : Prop} [Decidable p] {r' : Rule α} (hr : Ensures l r P) (hr' : Ensures l r' P) :
    Ensures l (if p then r else r') P := by
  split
  · exact hr
  · exact hr'

/-- A part that may be left out. -/
theorem optional {p : Prop} [Decidable p] {R : Option α → Prop} {f : Option α → Rule β}
    (hr : Ensures l r fun a => R (some a)) (hnone : R none) (hf : ∀ o, R o → Ensures l (f o) Q) :
    Ensures l (if p then some <$> r >>= f else Pure.pure none >>= f) Q :=
  ite ((hr.map fun _ h => h).bind hf) ((pure hnone).bind hf)

/-- Of a rule that always fails, anything holds. -/
theorem throw (e : Fault) : Ensures l (throw e : Rule α) P := .of_triple (.throw e)

theorem failExpecting (expected : String) : Ensures l (failExpecting expected : Rule α) P :=
  .of_triple (.failExpecting expected)

theorem failInvalid (kind : SyntaxError.Kind) : Ensures l (failInvalid kind : Rule α) P :=
  .of_triple (.failInvalid kind)

theorem tooManyPasses : Ensures l (tooManyPasses : Rule α) P := .of_triple .tooManyPasses

theorem tooDeep : Ensures l (tooDeep : Rule α) P := .of_triple .tooDeep

theorem bracket {before after : Cursor → Cursor} (h : Ensures l r P) :
    Ensures l (bracket before after r) P := by
  have inner : Triple (fun s _ => s.limits = l) r fun a _ _ => P a :=
    fun _ _ _ _ hs hrun => h hs hrun
  exact .of_triple (inner.bracket (fun _ _ hs => hs) fun _ _ _ ha => ha)

theorem nested (h : Ensures l r P) : Ensures l (nested r) P := bracket h

theorem declaring (names : List String) (h : Ensures l r P) : Ensures l (declaring names r) P :=
  bracket h

theorem recovering {stops : Lexeme → Bool} {pastSemicolon : Bool} (h : Ensures l r P) :
    Ensures l (recovering stops pastSemicolon r) fun o => ∀ a ∈ o, P a :=
  .of_triple (.recovering (fun _ _ _ _ hs hrun _ ha => Option.mem_some.1 ha ▸ h hs hrun)
    fun _ _ _ _ _ => nofun)

theorem node {start : Span} {build : Span → α} (h : ∀ span, P (build span)) :
    Ensures l (node start build) P :=
  skip fun span => skip fun _ => pure (h span)

theorem checkLimit (kind : LimitKind) (value : Nat) (span : Span) :
    Ensures l (checkLimit kind value span) fun _ => value ≤ l.bound kind := by
  rintro s c u c' rfl hrun
  exact (checkLimit_eq_ok hrun).1

theorem checkSize (size : Nat) (span : Span) :
    Ensures l (checkSize size span) fun _ => size ≤ l.maxCollectionSize :=
  checkLimit .collectionSize size span

/-! ### Loops -/

/-- A loop that keeps an invariant over its state, with what is known of what it sees. -/
theorem repeating_seen {look : α → Rule (β ⊕ γ)} {step : α → γ → Rule (β ⊕ α)} {J : γ → Prop}
    (hlook : ∀ a, P a → Ensures l (look a) (Sum.elim Q J))
    (hstep : ∀ a x, P a → J x → Ensures l (step a x) (Sum.elim Q P)) (n : Nat) {a : α} (ha : P a) :
    Ensures l (repeating look step n a) Q := by
  -- `P` is the invariant of the loop; the last look at the state gives `Q`.
  induction n generalizing a with
  | zero =>
    unfold Grammar.repeating
    refine (hlook a ha).bind fun x hx => ?_
    cases x with
    | inl b => exact pure hx
    | inr x => exact tooManyPasses
  | succ n ih =>
    unfold Grammar.repeating
    refine (hlook a ha).bind fun x hx => ?_
    cases x with
    | inl b => exact pure hx
    | inr x =>
      refine (hstep a x ha hx).bind fun y hy => ?_
      cases y with
      | inl b => exact pure hy
      | inr a' => exact ih hy

/-- A loop that keeps an invariant over its state. -/
theorem repeating {look : α → Rule (β ⊕ γ)} {step : α → γ → Rule (β ⊕ α)}
    (hlook : ∀ a, P a → Ensures l (look a) (Sum.elim Q fun _ => True))
    (hstep : ∀ a x, P a → Ensures l (step a x) (Sum.elim Q P)) (n : Nat) {a : α} (ha : P a) :
    Ensures l (repeating look step n a) Q :=
  repeating_seen hlook (fun a x ha _ => hstep a x ha) n ha

/-- The items of a list that is no longer than allowed, after `size` others. -/
def Items (l : Limits) (P : α → Prop) (size : Nat) (xs : List α) : Prop :=
  (∀ x ∈ xs, P x) ∧ size + xs.length ≤ l.maxCollectionSize

theorem Items.few {xs : List α} (h : Items l P 0 xs) : xs.length ≤ l.maxCollectionSize := by
  rw [← Nat.zero_add xs.length]
  exact h.2

/-- A pass that gives any items makes sure that the list is not too long. -/
theorem many {more : Rule Bool} {item : Nat → Rule (List α)}
    (h : ∀ size, size ≤ l.maxCollectionSize → Ensures l (item size) (Items l P size)) (n : Nat)
    {size : Nat} (room : size ≤ l.maxCollectionSize) :
    Ensures l (many more item n size) (Items l P size) := by
  induction n generalizing size with
  | zero =>
    unfold Grammar.many
    exact skip fun b => ite tooManyPasses (pure ⟨List.forall_mem_nil _, room⟩)
  | succ n ih =>
    unfold Grammar.many
    refine skip fun b => ite ?_ (pure ⟨List.forall_mem_nil _, room⟩)
    refine (h size room).bind fun xs hxs => (ih hxs.2).bind fun ys hys => pure ?_
    obtain ⟨new, within⟩ := hys
    refine ⟨List.forall_mem_append.2 ⟨hxs.1, new⟩, ?_⟩
    rwa [List.length_append, ← Nat.add_assoc]

variable {item : Rule α} {spanOf : α → Span}

theorem listed {more : Rule Bool} (h : Ensures l item P) (n : Nat) {size : Nat}
    (room : size ≤ l.maxCollectionSize) :
    Ensures l (listed more item spanOf n size) (Items l P size) := by
  induction n generalizing size with
  | zero =>
    unfold Grammar.listed
    exact skip fun b => ite tooManyPasses (pure ⟨List.forall_mem_nil _, room⟩)
  | succ n ih =>
    unfold Grammar.listed
    refine skip fun b => ite ?_ (pure ⟨List.forall_mem_nil _, room⟩)
    -- An item is checked when it has been read, before the list can go on.
    refine h.bind fun x hx => (checkSize _ _).bind fun _ more => skip fun b => ite ?_ ?_
    · refine (ih more).bind fun xs hxs => pure ⟨List.forall_mem_cons.2 ⟨hx, hxs.1⟩, ?_⟩
      have within := hxs.2
      rw [List.length_cons]
      omega
    · exact pure ⟨List.forall_mem_singleton.2 hx, more⟩

theorem commaTail (h : Ensures l item P) (room : Nat) :
    Ensures l (commaTail item spanOf room) fun xs => (∀ x ∈ xs, P x) ∧ xs.length ≤ room := by
  induction room with
  | zero =>
    unfold Grammar.commaTail
    refine skip fun b => ite ?_ (pure ⟨List.forall_mem_nil _, Nat.le_refl 0⟩)
    -- There is no room for the item after the comma, so the list fails.
    exact skip fun x => skip fun limits => throw _
  | succ room ih =>
    unfold Grammar.commaTail
    refine skip fun b => ite ?_ (pure ⟨List.forall_mem_nil _, Nat.zero_le _⟩)
    refine h.bind fun x hx => ih.bind fun xs hxs => pure ?_
    exact ⟨List.forall_mem_cons.2 ⟨hx, hxs.1⟩, Nat.succ_le_succ hxs.2⟩

/-- The first item is not checked; so the bound must leave room for one. -/
theorem commaList (positive : 0 < l.maxCollectionSize) (h : Ensures l item P) :
    Ensures l (commaList item spanOf) (Items l P 0) := by
  refine h.bind fun x hx => ?_
  have bound : Ensures l limits fun m => m = l := by
    rintro s c m c' rfl ⟨⟩
    rfl
  refine bound.bind fun m hm => (commaTail h _).bind fun xs hxs => pure ?_
  refine ⟨List.forall_mem_cons.2 ⟨hx, hxs.1⟩, ?_⟩
  have within := hxs.2
  rw [hm] at within
  rw [List.length_cons]
  omega

end Ensures

/-! ### Operators -/

/-- What an expression rule gives. -/
abbrev EnsuresFit (l : Limits) (e : Rule Expr) : Prop := Ensures l e fun x => Fit l x.nodes

variable {u p e : Rule Expr}

theorem climb_ensures (hu : EnsuresFit l u) (hp : EnsuresFit l p) (tighter least : Nat) :
    EnsuresFit l (climb u p tighter least) := by
  induction tighter generalizing least with
  | zero => exact hu
  | succ tighter ih =>
    refine hu.bind fun first hfirst => .skip fun n => ?_
    refine .repeating (P := fun x => Fit l x.nodes) (fun left hleft => ?_) (fun left op hleft => ?_)
      n hfirst
    · refine .skip fun lexeme => ?_
      split
      · split
        · exact .pure trivial
        · exact .pure hleft
      · exact .pure hleft
    · have right : EnsuresFit l
          (if op = .power then p else climb u p tighter (op.precedence + 1)) := .ite hp (ih _)
      refine .skip fun _ => right.bind fun x hx => ?_
      refine Ensures.bind (.node fun span => ?_) fun y hy => .pure hy
      exact fit_cons.2 ⟨fits_plain rfl rfl, fit_append.2 ⟨hleft, hx⟩⟩

theorem binaryFrom_ensures (hu : EnsuresFit l u) (hp : EnsuresFit l p) (least : Nat) :
    EnsuresFit l (binaryFrom u p least) :=
  climb_ensures hu hp _ _

/-! ### Literals -/

/-- The length of a string does not depend on the type named in front of it. -/
theorem fits_literal {span : Span} {value : Literal.Value} {text : String} {type : Option String}
    (h : ∀ k ∈ stringLength? value, k ≤ l.maxStringLength) :
    Fit l (Expr.literal span ⟨value, text, type⟩).nodes :=
  fit_cons.2 ⟨⟨nofun, h⟩, fit_nil⟩

theorem literal_ensures (t : Token) (x : Literal) :
    Ensures l (literal t x) fun e =>
      Fit l e.nodes ∧ ∀ k ∈ stringLength? x.value, k ≤ l.maxStringLength := by
  refine .skip fun _ => ?_
  -- Only a string has a length, and this is checked.
  split
  · next n known =>
    refine (Ensures.checkLimit _ _ _).bind fun _ within => .node fun span => ?_
    have all : ∀ k ∈ stringLength? x.value, k ≤ l.maxStringLength := by
      rw [known]
      rintro k ⟨⟩
      exact within
    exact ⟨fits_literal all, all⟩
  · next none =>
    have all : ∀ k ∈ stringLength? x.value, k ≤ l.maxStringLength := by
      rw [none]
      exact nofun
    exact .node fun span => ⟨fits_literal all, all⟩

theorem stringLength?_of_timeValue? {t : Token} {v : Literal.Value}
    (h : timeValue? t = some (.ok v)) : stringLength? v = none := by
  unfold timeValue? at h
  dsimp only at h
  split at h
  · split at h
    all_goals cases h
    rfl
  · split at h
    all_goals cases h
    rfl
  · split at h
    all_goals cases h
    rfl
  · split at h
    all_goals cases h
    rfl
  · cases h

theorem timeLiteral_ensures {t : Token} {value : Except Fault Literal.Value}
    (h : timeValue? t = some value) : EnsuresFit l (timeLiteral t value) := by
  refine .skip fun _ => ?_
  cases value with
  | ok v =>
    refine .node fun span => fits_literal ?_
    rw [stringLength?_of_timeValue? h]
    exact nofun
  | error f => exact .throw f

theorem typedNode_ensures {type : Token} {value : Literal.Value}
    (h : ∀ k ∈ stringLength? value, k ≤ l.maxStringLength) : EnsuresFit l (typedNode type value) :=
  .skip fun _ => .skip fun _ => .node fun _ => fits_literal h

theorem stringLength?_negated {v : Literal.Value} {b : Bool} {k : Nat}
    (h : k ∈ stringLength? (if b then negated v else v)) : k ∈ stringLength? v := by
  cases b with
  | false => exact h
  | true =>
    cases v <;> exact h

theorem typedLiteral_ensures : EnsuresFit l typedLiteral := by
  refine .skip fun type => .skip fun _ => .skip fun minus => .skip fun t => ?_
  split
  · exact .ite (.failExpecting _) (.skip fun _ => typedNode_ensures nofun)
  · refine (literal_ensures t _).bind fun _ h => typedNode_ensures fun k hk => ?_
    exact h.2 k (stringLength?_negated hk)
  · refine (literal_ensures t _).bind fun _ h => typedNode_ensures fun k hk => ?_
    exact h.2 k (stringLength?_negated hk)
  · exact .failExpecting _
  · exact .ite (.failExpecting _) ((literal_ensures t _).bind fun _ h => typedNode_ensures h.2)
  · exact .failExpecting _

/-! ### Variables and calls -/

theorem variableRoot_ensures : Ensures l variableRoot fun v => Fit l v.nodes := by
  refine .skip fun t => .skip fun d => ?_
  dsimp only
  split
  · exact .skip fun _ => .node fun _ => fit_cons.2 ⟨fits_plain rfl rfl, fit_nil⟩
  · refine .ite (.skip fun _ => .node fun _ => ?_) (.failInvalid _)
    exact fit_cons.2 ⟨fits_plain rfl rfl, fit_nil⟩
  · refine .ite (.skip fun _ => .skip fun name => .node fun _ => ?_) (.failInvalid _)
    exact fit_cons.2 ⟨fits_plain rfl rfl, fit_nil⟩
  · exact .skip fun _ => .node fun _ => fit_cons.2 ⟨fits_plain rfl rfl, fit_nil⟩
  · exact .failInvalid _

section Parts

variable (positive : 0 < l.maxCollectionSize) (he : EnsuresFit l e)
include positive he

theorem variableAccess_ensures {v : Variable} (hv : Fit l v.nodes) :
    Ensures l (variableAccess e v) (Sum.elim (fun w => Fit l w.nodes) fun w => Fit l w.nodes) := by
  refine .skip fun dot => .skip fun next => .ite ?_ ?_
  · refine .skip fun _ => .skip fun member => Ensures.bind (.node fun span => ?_) fun w hw => .pure hw
    exact fit_cons.2 ⟨fits_plain rfl rfl, hv⟩
  refine .skip fun bracket => .ite ?_ ?_
  · refine .skip fun opener => (Ensures.commaList positive he).bind fun indices h => ?_
    refine .skip fun _ => Ensures.bind (.node fun span => ?_) fun w hw => .pure hw
    exact fit_cons.2 ⟨fits_list h.few rfl rfl, fit_append.2 ⟨hv, fit_exprs.2 h.1⟩⟩
  refine .skip fun caret => .skip fun d => .ite ?_ (.pure hv)
  refine .skip fun _ => Ensures.bind (.node fun span => ?_) fun w hw => .pure hw
  exact fit_cons.2 ⟨fits_plain rfl rfl, hv⟩

theorem variableWith_ensures : Ensures l (variableWith e) fun v => Fit l v.nodes := by
  refine variableRoot_ensures.bind fun root hroot => .skip fun n => ?_
  refine .repeating (P := fun v => Fit l v.nodes) (fun v hv => ?_) (fun v _ hv => ?_) n hroot
  · exact .pure trivial
  · exact variableAccess_ensures positive he hv

theorem argument_ensures : Ensures l (argument e) fun a => Fit l a.nodes := by
  have target := variableWith_ensures positive he
  refine .skip fun start => .skip fun next => .ite ?_ (.ite ?_ (.skip fun third => .ite ?_ ?_))
  · refine .skip fun _ => .skip fun _ => he.bind fun x hx => .node fun span => ?_
    exact fit_cons.2 ⟨fits_plain rfl rfl, hx⟩
  · refine .skip fun _ => .skip fun _ => target.bind fun v hv => .node fun span => ?_
    exact fit_cons.2 ⟨fits_plain rfl rfl, hv⟩
  · refine .skip fun _ => .skip fun name => .skip fun _ => target.bind fun v hv => ?_
    exact .node fun span => fit_cons.2 ⟨fits_plain rfl rfl, hv⟩
  · exact he.bind fun x hx => .node fun span => fit_cons.2 ⟨fits_plain rfl rfl, hx⟩

theorem callArgs_ensures :
    Ensures l (callArgs e) fun args =>
      Fit l (Arg.nodesAll args) ∧ args.length ≤ l.maxCollectionSize := by
  refine .skip fun opener => .skip fun b => .ite (.pure ⟨fit_nil, Nat.zero_le _⟩) ?_
  have gap : Ensures l (argumentOrGap e) fun a => Fit l a.nodes := by
    refine .skip fun comma => .skip fun close => .ite ?_ (argument_ensures positive he)
    refine .skip fun d => .ite (.skip fun t => .node fun span => ?_) (.failInvalid _)
    exact fit_cons.2 ⟨fits_plain rfl rfl, fit_nil⟩
  refine .skip fun n => (Ensures.listed gap n (Nat.zero_le _)).bind fun args h => ?_
  exact .skip fun _ => .pure ⟨fit_args.2 h.1, h.few⟩

theorem variableOrCall_ensures : EnsuresFit l (variableOrCall e) := by
  refine (variableWith_ensures positive he).bind fun v hv => .skip fun b => .ite ?_ (.pure hv)
  split
  · exact .skip fun _ => .throw _
  · refine (callArgs_ensures positive he).bind fun args h => .node fun span => ?_
    exact fit_cons.2 ⟨fits_list h.2 rfl rfl, h.1⟩

/-! ### Operands -/

theorem primary_ensures : EnsuresFit l (primary e) := by
  refine .skip fun t => ?_
  split
  · exact (literal_ensures t _).imp fun _ h => h.1
  · next value known => exact timeLiteral_ensures known
  · refine .ite ?_ (.skip fun second => .skip fun third => .ite typedLiteral_ensures ?_)
    · refine .skip fun _ => he.bind fun x hx => .skip fun _ => .node fun span => ?_
      exact fit_cons.2 ⟨fits_plain rfl rfl, hx⟩
    · exact .ite (variableOrCall_ensures positive he) (.failInvalid _)

end Parts

theorem unaryBody_ensures (positive : 0 < l.maxCollectionSize) (hu : EnsuresFit l u)
    (hp : EnsuresFit l p) : EnsuresFit l (unaryBody u p) := by
  refine .skip fun t => ?_
  split
  · refine .skip fun _ => (binaryFrom_ensures hu hp _).bind fun x hx => .node fun span => ?_
    exact fit_cons.2 ⟨fits_plain rfl rfl, hx⟩
  · refine .skip fun _ => hu.bind fun x hx => .node fun span => ?_
    exact fit_cons.2 ⟨fits_plain rfl rfl, hx⟩
  · exact .skip fun _ => hu.bind fun x hx => .pure (fit_withSpan _ hx)
  · exact primary_ensures positive (binaryFrom_ensures hu hp 1)

mutual

theorem unary_ensures (positive : 0 < l.maxCollectionSize) : ∀ levels, EnsuresFit l (unary levels)
  | 0 => .tooDeep
  | levels + 1 => .nested
      (unaryBody_ensures positive (unary_ensures positive levels) (powerOperand_ensures positive levels))

theorem powerOperand_ensures (positive : 0 < l.maxCollectionSize) :
    ∀ levels, EnsuresFit l (powerOperand levels)
  | 0 => .tooDeep
  | levels + 1 => .nested
      (binaryFrom_ensures (unary_ensures positive levels) (powerOperand_ensures positive levels) _)

end

theorem expression_ensures (positive : 0 < l.maxCollectionSize) (levels : Nat) :
    EnsuresFit l (expression levels) :=
  binaryFrom_ensures (unary_ensures positive levels) (powerOperand_ensures positive levels) 1

/-- An expression opens at least one construct. -/
theorem expression_opens (levels : Nat) : Ensures l (expression levels) fun _ => 0 < levels := by
  cases levels with
  | zero => exact Ensures.bind (P := fun _ => False) .tooDeep fun _ no => no.elim
  | succ levels => exact fun _ _ _ _ _ _ => Nat.succ_pos levels

end Grammar

end Plc

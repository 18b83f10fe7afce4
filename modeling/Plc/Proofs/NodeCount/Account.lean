/-
Nodes that are paid for.

Every node of a tree is counted when it is built.  `Builds le known r made` is the account of a
rule: whoever has paid for the nodes `known` before the rule runs has paid for the nodes `made a`
after it gave `a`.  What paying for nodes means depends on `le`: nodes may be compared by their
number, or as sets, where a copy of a node that is paid for costs nothing.

* `countsUp` — no rule of the grammar takes a count back;
* `Builds.bind`, `Builds.node`, `Builds.frame` — rules in a row, a new node, and what was known
  before;
* `Builds.many`, `Builds.commaList`, `Builds.listed`, `Builds.recovering` — loops and recovery.
-/
import Plc.Proofs.Grammar.Course
import Plc.Proofs.Grammar.DeclCongruence
import Plc.Proofs.Grammar.Triple
import Plc.Tree.Node

namespace Plc.Grammar

variable {α β γ : Type}

/-! ### The count only grows -/

/-- However the rule ends, no fewer nodes are counted after it than before. -/
def CountsUp (r : Rule α) : Prop :=
  ∀ s c, c.usage.nodes ≤ (cursorAfter (r s c)).usage.nodes

namespace CountsUp

/-- Where rules lead, the nodes that were counted stay counted: what is skipped after an error is
not counted, and what was counted before it is not taken back. -/
theorem course : Course fun _ c c' => c.usage.nodes ≤ c'.usage.nodes where
  trans := Nat.le_trans
  aside _ _ _ _ same := Nat.le_of_eq same.symm
  count _ _ := Nat.le_succ _
  advance s c := by
    obtain ⟨rest, _, _, _, _, _, _⟩ := c
    cases rest <;> exact Nat.le_refl _
  take _ _ _ _ := Nat.le_refl _
  note _ _ _ := Nat.le_refl _

theorem bind {r : Rule α} {f : α → Rule β} (hr : CountsUp r) (hf : ∀ a, CountsUp (f a)) :
    CountsUp (r >>= f) :=
  Course.bind course hr hf

theorem ite {p : Prop} [Decidable p] {r r' : Rule α} (hr : CountsUp r) (hr' : CountsUp r') :
    CountsUp (if p then r else r') :=
  Course.ite course hr hr'

theorem checkLimit (kind : LimitKind) (value : Nat) (span : Span) :
    CountsUp (checkLimit kind value span) :=
  Course.checkLimit course kind value span

theorem recovering {r : Rule α} (stops : Lexeme → Bool) (pastSemicolon : Bool) (hr : CountsUp r) :
    CountsUp (recovering stops pastSemicolon r) :=
  Course.recovering course stops pastSemicolon hr

end CountsUp

theorem countsUp : GrammarCongruence fun _ _ (r : Rule _) => CountsUp r :=
  Course.grammar CountsUp.course

theorem CountsUp.commaList {item : Rule α} {spanOf : α → Span} (h : CountsUp item) :
    CountsUp (commaList item spanOf) :=
  @Congruence.commaList _ _ (Course.congruence CountsUp.course) α item item spanOf h

theorem CountsUp.whileTokens {step : α → Rule (Option α)} (h : ∀ a, CountsUp (step a)) (a : α) :
    CountsUp (whileTokens step a) :=
  @Steps.whileTokens_rel _ _ (Course.congruence CountsUp.course).toSteps α step step h a

/-- A count that is refused ends the reading. -/
theorem recordNode_le {P : Assertion} (span : Span) :
    Triple P (recordNode span) fun _ s c => c.usage.nodes ≤ s.limits.maxNodes := by
  intro s c u c' _ hrun
  obtain ⟨_, c₁, hmodify, hrest⟩ := bind_eq_ok_iff.1 hrun
  cases hmodify
  obtain ⟨_, c₂, hget, hcheck⟩ := bind_eq_ok_iff.1 hrest
  cases hget
  obtain ⟨within, rfl⟩ := checkLimit_eq_ok hcheck
  exact within

/-! ### Accounts -/

/-- What it may mean that some nodes pay for others. -/
structure Covering (le : List Node → List Node → Prop) : Prop where
  refl (ns : List Node) : le ns ns
  trans {ms ns os : List Node} : le ms ns → le ns os → le ms os
  append {ms ms' ns ns' : List Node} : le ms ns → le ms' ns' → le (ms ++ ms') (ns ++ ns')

/-- There are no more of them. -/
def ByNumber (ms ns : List Node) : Prop := ms.length ≤ ns.length

theorem byNumber : Covering ByNumber where
  refl ns := Nat.le_refl _
  trans h h' := Nat.le_trans h h'
  append h h' := by
    unfold ByNumber
    rw [List.length_append, List.length_append]
    exact Nat.add_le_add h h'

theorem asSets : Covering (· ⊆ ·) where
  refl ns := List.Subset.refl ns
  trans h h' := List.Subset.trans h h'
  append h h' := List.append_subset.2
    ⟨List.subset_append_of_subset_left _ h, List.subset_append_of_subset_right _ h'⟩

variable {le : List Node → List Node → Prop}

/-- More than `paid` nodes are counted: enough further ones to pay for the given nodes. -/
def Paid (le : List Node → List Node → Prop) (paid : Nat) (ns : List Node) : Assertion :=
  fun _ c => ∃ bought, le ns bought ∧ paid + bought.length ≤ c.usage.nodes

theorem Paid.imp (covering : Covering le) {paid : Nat} {ms ns : List Node} (h : le ms ns)
    {s : Setting} {c : Cursor} (hc : Paid le paid ns s c) : Paid le paid ms s c := by
  obtain ⟨bought, covers, counted⟩ := hc
  exact ⟨bought, covering.trans h covers, counted⟩

/-- If the nodes `known` are paid for and the rule gives `a`, the nodes `made a` are. -/
def Builds (le : List Node → List Node → Prop) (known : List Node) (r : Rule α)
    (made : α → List Node) : Prop :=
  ∀ paid, Triple (Paid le paid known) r fun a => Paid le paid (made a)

namespace Builds

variable {known : List Node} {r : Rule α} {made : α → List Node}

theorem bind {f : α → Rule β} {mid : α → List Node} {made : β → List Node}
    (hr : Builds le known r mid) (hf : ∀ a, Builds le (mid a) (f a) made) :
    Builds le known (r >>= f) made :=
  fun paid => (hr paid).bind fun a => hf a paid

theorem imp (covering : Covering le) (h : Builds le known r made) {made' : α → List Node}
    (hm : ∀ a, le (made' a) (made a)) : Builds le known r made' :=
  fun paid => (h paid).post fun a _ _ => Paid.imp covering (hm a)

/-- More may be paid for than is asked for. -/
theorem given (covering : Covering le) (h : Builds le known r made) {known' : List Node}
    (hk : le known known') : Builds le known' r made :=
  fun paid => (h paid).imp fun _ _ => Paid.imp covering hk

theorem pure (covering : Covering le) {a : α} (h : le (made a) known) :
    Builds le known (pure a) made :=
  fun _ => .pure fun _ _ => Paid.imp covering h

theorem same {a : α} (h : made a = known) : Builds le known (Pure.pure a) made :=
  fun _ => .pure fun _ _ hc => h ▸ hc

theorem ite {p : Prop} [Decidable p] {r' : Rule α} (hr : Builds le known r made)
    (hr' : Builds le known r' made) : Builds le known (if p then r else r') made :=
  fun paid => .ite (fun _ => hr paid) fun _ => hr' paid

/-- A rule that builds nothing leaves paid what was paid. -/
theorem of_countsUp (h : CountsUp r) : Builds le known r fun _ => known := by
  rintro paid s c a c' ⟨bought, covers, counted⟩ hrun
  have grown := h s c
  rw [hrun] at grown
  exact ⟨bought, covers, Nat.le_trans counted grown⟩

/-- What was paid before stays paid. -/
theorem frame (covering : Covering le) (h : Builds le [] r made) (known : List Node) :
    Builds le known r fun a => known ++ made a := by
  rintro paid s c a c' ⟨bought, covers, counted⟩ hrun
  obtain ⟨new, more, grown⟩ := h (paid + bought.length) ⟨[], covering.refl [], counted⟩ hrun
  refine ⟨bought ++ new, covering.append covers more, ?_⟩
  rwa [List.length_append, ← Nat.add_assoc]

/-- One more node is counted. -/
theorem recordNode (covering : Covering le) (span : Span) (known : List Node) (n : Node) :
    Builds le known (recordNode span) fun _ => n :: known := by
  rintro paid s c a c' ⟨bought, covers, counted⟩ hrun
  refine ⟨n :: bought, covering.append (covering.refl [n]) covers, ?_⟩
  obtain ⟨_, c₁, hmodify, hrest⟩ := bind_eq_ok_iff.1 hrun
  cases hmodify
  obtain ⟨_, c₂, hget, hcheck⟩ := bind_eq_ok_iff.1 hrest
  cases hget
  have grown := CountsUp.checkLimit .nodes c.usage.addNode.nodes span s
    { c with usage := c.usage.addNode }
  rw [show Grammar.checkLimit .nodes c.usage.addNode.nodes span s
    { c with usage := c.usage.addNode } = _ from hcheck] at grown
  exact Nat.le_trans (Nat.succ_le_succ counted) grown

/-- A new node is paid for. -/
theorem node (covering : Covering le) {start : Span} {build : Span → α} (root : Span → Node)
    (h : ∀ span, le (made (build span)) (root span :: known)) :
    Builds le known (node start build) made := by
  refine bind (of_countsUp (countsUp.spanFrom_rel start)) fun span => ?_
  exact bind (recordNode covering span known (root span)) fun _ => pure covering (h span)

theorem nested (h : Builds le known r made) : Builds le known (nested r) made :=
  fun paid => by
    refine Triple.bracket (h paid) ?_ ?_
    · exact fun _ _ hc => hc
    · exact fun _ _ _ hc => hc

theorem declaring (names : List String) (h : Builds le known r made) :
    Builds le known (declaring names r) made :=
  fun paid => by
    refine Triple.bracket (h paid) ?_ ?_
    · exact fun _ _ hc => hc
    · exact fun _ _ _ hc => hc

/-- A part that may be left out. -/
theorem optional (opt : Option α → List Node) (covering : Covering le) {p : Prop} [Decidable p]
    {f : Option α → Rule β} {made' : β → List Node} (h : Builds le [] r made)
    (hnone : opt none = []) (hsome : ∀ a, opt (some a) = made a)
    (hf : ∀ x, Builds le (known ++ opt x) (f x) made') :
    Builds le known (if p then some <$> r >>= f else Pure.pure none >>= f) made' := by
  refine .ite ?_ ?_
  · rw [map_eq_pure_bind, bind_assoc]
    refine (h.frame covering known).bind fun a => ?_
    rw [← hsome, pure_bind]
    exact hf (some a)
  · rw [pure_bind]
    have rest := hf none
    rwa [hnone, List.append_nil] at rest

/-- By number, it does not matter which node is counted. -/
theorem count {start : Span} {build : Span → α}
    (h : ∀ span, (made (build span)).length ≤ known.length + 1) :
    Builds ByNumber known (Grammar.node start build) made :=
  node byNumber (fun _ => .expr default) h

/-- Nodes that are paid for by number are paid for as a set. -/
theorem toSets (h : Builds ByNumber [] r made) : Builds (· ⊆ ·) [] r made := by
  rintro paid s c a c' ⟨bought, -, counted⟩ hrun
  obtain ⟨new, more, grown⟩ := h (paid + bought.length) ⟨[], Nat.le_refl _, counted⟩ hrun
  refine ⟨made a, List.Subset.refl _, ?_⟩
  unfold ByNumber at more
  omega

/-! ### Tokens -/

theorem peek : Builds le known Grammar.peek fun _ => known :=
  of_countsUp countsUp.peek_rel

theorem lexemeAt (n : Nat) : Builds le known (Grammar.lexemeAt n) fun _ => known :=
  of_countsUp (countsUp.lexemeAt_rel n)

theorem lexeme : Builds le known Grammar.lexeme fun _ => known :=
  lexemeAt 0

theorem dialect : Builds le known Grammar.dialect fun _ => known :=
  of_countsUp countsUp.dialect

theorem passes : Builds le known Grammar.passes fun _ => known :=
  of_countsUp fun _ _ => Nat.le_refl _

theorem sees (t : Terminal) : Builds le known (Grammar.sees t) fun _ => known :=
  of_countsUp (countsUp.sees_rel t)

theorem atEnd : Builds le known Grammar.atEnd fun _ => known :=
  of_countsUp countsUp.atEnd_rel

theorem advance : Builds le known Grammar.advance fun _ => known :=
  of_countsUp countsUp.advance

theorem accept (t : Terminal) : Builds le known (Grammar.accept t) fun _ => known :=
  of_countsUp (countsUp.accept_rel t)

theorem expect (t : Terminal) : Builds le known (Grammar.expect t) fun _ => known :=
  of_countsUp (countsUp.expect_rel t)

theorem expectClosing (t : Terminal) (opener : Token) (kind : SyntaxError.Kind) :
    Builds le known (Grammar.expectClosing t opener kind) fun _ => known :=
  of_countsUp (countsUp.expectClosing_rel t opener kind)

theorem expectSemicolon : Builds le known Grammar.expectSemicolon fun _ => known :=
  of_countsUp countsUp.expectSemicolon_rel

theorem expectName (expected : String) :
    Builds le known (Grammar.expectName expected) fun _ => known :=
  of_countsUp (countsUp.expectName_rel expected)

theorem expectAnyName (expected : String) :
    Builds le known (Grammar.expectAnyName expected) fun _ => known :=
  of_countsUp (countsUp.expectAnyName_rel expected)

theorem checkSize (size : Nat) (span : Span) :
    Builds le known (Grammar.checkSize size span) fun _ => known :=
  of_countsUp (countsUp.checkSize_rel size span)

theorem fail (e : SyntaxError) : Builds le known (Grammar.fail e : Rule α) made :=
  fun _ => .fail e

theorem fail_bind (e : SyntaxError) {f : α → Rule β} {made : β → List Node} :
    Builds le known (Grammar.fail e >>= f) made :=
  fun _ => Triple.bind (R := fun _ _ _ => False) (.fail e) fun _ _ _ _ _ h => h.elim

theorem failExpecting (expected : String) :
    Builds le known (Grammar.failExpecting expected : Rule α) made :=
  fun _ => .failExpecting expected

theorem failInvalid (kind : SyntaxError.Kind) :
    Builds le known (Grammar.failInvalid kind : Rule α) made :=
  fun _ => .failInvalid kind

theorem tooDeep : Builds le known (Grammar.tooDeep : Rule α) made :=
  fun _ => .tooDeep

/-! ### Loops -/

theorem repeating (inv : α → List Node) {look : α → Rule (β ⊕ γ)} {step : α → γ → Rule (β ⊕ α)}
    {made : β → List Node} (hlook : ∀ a, Builds le (inv a) (look a) (Sum.elim made fun _ => inv a))
    (hstep : ∀ a x, Builds le (inv a) (step a x) (Sum.elim made inv)) (n : Nat) (a : α) :
    Builds le (inv a) (repeating look step n a) made := by
  intro paid
  refine Triple.repeating (I := fun a => Paid le paid (inv a)) (J := fun a _ => Paid le paid (inv a))
    (fun a => (hlook a paid).post ?_) (fun a x => (hstep a x paid).post ?_) n a
  · rintro (b | x) s c h
    · exact h
    · exact h
  · rintro (b | a') s c h
    · exact h
    · exact h

variable {item : Nat → Rule (List α)}

theorem many (made : α → List Node) (covering : Covering le) {more : Rule Bool}
    (hmore : CountsUp more) (hitem : ∀ size, Builds le [] (item size) (List.flatMap made))
    (n size : Nat) :
    Builds le known (many more item n size) fun xs => known ++ xs.flatMap made := by
  intro paid
  have looks (xs : List α) : Triple (Paid le paid (known ++ xs.flatMap made)) more
      fun b => cond b (Paid le paid (known ++ xs.flatMap made))
        (Paid le paid (known ++ xs.flatMap made)) :=
    (of_countsUp hmore paid).post fun b _ _ h => by cases b <;> exact h
  have reads (xs : List α) (size : Nat) : Triple (Paid le paid (known ++ xs.flatMap made))
      (item size) fun ys => Paid le paid (known ++ (xs ++ ys).flatMap made) :=
    ((hitem size).frame covering _ paid).post fun ys _ _ h => by
      rwa [List.flatMap_append, ← List.append_assoc]
  have loop := Triple.many looks reads n size []
  simpa only [List.flatMap_nil, List.append_nil, List.nil_append] using loop

variable {item : Rule α} {spanOf : α → Span}

/-- A comma builds nothing. -/
theorem comma {ns : List Node} (paid : Nat) : Triple (Paid le paid ns) (Grammar.accept Mark.comma)
    fun b => cond b (Paid le paid ns) (Paid le paid ns) :=
  (accept _ paid).post fun b _ _ h => by cases b <;> exact h

/-- An item is paid for after those before it. -/
theorem next (covering : Covering le) (known : List Node) (hitem : Builds le [] item made)
    (paid : Nat) (xs : List α) :
    Triple (Paid le paid (known ++ xs.flatMap made)) item
      fun x => Paid le paid (known ++ (xs ++ [x]).flatMap made) :=
  (hitem.frame covering _ paid).post fun x _ _ h => by
    rwa [List.flatMap_append, List.flatMap_singleton, ← List.append_assoc]

theorem commaList (covering : Covering le) (hitem : Builds le [] item made) :
    Builds le known (commaList item spanOf) fun xs => known ++ xs.flatMap made := by
  intro paid
  have loop : Triple _ (Grammar.commaList item spanOf) _ :=
    Triple.commaList (fun _ => comma paid) (next covering known hitem paid)
  simpa only [List.flatMap_nil, List.append_nil] using loop

theorem listed (covering : Covering le) {more : Rule Bool} (hmore : CountsUp more)
    (hitem : Builds le [] item made) (n size : Nat) :
    Builds le known (listed more item spanOf n size) fun xs => known ++ xs.flatMap made := by
  intro paid
  have looks (xs : List α) : Triple (Paid le paid (known ++ xs.flatMap made)) more
      fun b => cond b (Paid le paid (known ++ xs.flatMap made))
        (Paid le paid (known ++ xs.flatMap made)) :=
    (of_countsUp hmore paid).post fun b _ _ h => by cases b <;> exact h
  have loop : Triple _ (Grammar.listed more item spanOf n size) _ :=
    Triple.listed looks (fun _ => comma paid)
      (fun _ size span => of_countsUp (countsUp.checkSize_rel size span) paid)
      (next covering known hitem paid) n size []
  simpa only [List.flatMap_nil, List.append_nil, List.nil_append] using loop

theorem recovering {stops : Lexeme → Bool} {pastSemicolon : Bool} {r : Rule α}
    (hr : CountsUp r) (h : Builds le [] r made) :
    Builds le [] (recovering stops pastSemicolon r) fun a => a.toList.flatMap made := by
  intro paid
  refine Triple.recovering ((h paid).post fun a s c hc => ?_) ?_
  · simpa using hc
  · rintro s c c' ⟨bought, covers, counted⟩ hrun
    have grown := CountsUp.recovering stops pastSemicolon hr s c
    rw [hrun] at grown
    exact ⟨bought, covers, Nat.le_trans counted grown⟩

end Builds

end Plc.Grammar

/-
What a rule for declarations spreads over the text.

Variables that are declared together stand over one another, since they share their type and their
annotations; so the nodes that a rule for declarations builds are not side by side, but each lies
between the token the rule began at and the last one it read.  Annotations that were taken lie
before the next token, until it is passed over.

* `Node.Encloses` — a node covers its children, but for annotations that come before a variable;
* `Node.Lies` — a node between two offsets, with all the nodes below it enclosing theirs;
* `Spread` — nodes that lie between a place and the current one;
* `Spreads`, `Spans` — what a rule has built, wherever it began, or from its first token on;
* `Spread.node`, `Spread.rewrap` — a node above others, and one in the place of another.
-/
import Plc.Proofs.Nesting.Waiting

namespace Plc

namespace Node

/-- The first node declares a variable, and the second is an annotation of it that comes before. -/
def AnnotatedBy (n m : Node) : Prop :=
  ∃ d p, n = .varDecl d ∧ m = .pragma p ∧ p.span.stop ≤ d.span.start

/-- The node covers the nodes directly below it, but for annotations that come before a variable. -/
def Encloses (n : Node) : Prop :=
  ∀ m ∈ n.children, n.span.contains m.span = true ∨ n.AnnotatedBy m

/-- The node lies between two offsets, and every node from it on down encloses its children. -/
structure Lies (lo hi : Nat) (n : Node) : Prop where
  encloses : ∀ m ∈ n.nodes, m.Encloses
  first : lo ≤ n.span.start
  last : n.span.stop ≤ hi

namespace Lies

variable {lo lo' hi hi' : Nat} {n k : Node}

theorem mono (h : n.Lies lo hi) (first : lo' ≤ lo) (last : hi ≤ hi') : n.Lies lo' hi' :=
  ⟨h.encloses, Nat.le_trans first h.first, Nat.le_trans h.last last⟩

/-- A node above others that lie in it. -/
theorem above (first : lo ≤ n.span.start) (last : n.span.stop ≤ hi)
    (below : ∀ m ∈ n.children, m.Lies n.span.start n.span.stop ∨ n.AnnotatedBy m) :
    n.Lies lo hi := by
  refine ⟨fun m hm => ?_, first, last⟩
  rw [nodes_eq, List.mem_cons, List.mem_flatMap] at hm
  rcases hm with rfl | ⟨child, mem, hm⟩
  · exact fun child mem => (below child mem).imp_left fun h => Span.contains_iff.2 ⟨h.first, h.last⟩
  · rcases below child mem with h | ⟨d, p, -, rfl, -⟩
    · exact h.encloses m hm
    · obtain rfl := List.mem_singleton.1 hm
      exact List.forall_mem_nil _

/-- A child that is no annotation lies where its parent does. -/
theorem child (h : k.Lies lo hi) (hm : n ∈ k.children) (plain : ∀ p, n ≠ .pragma p) :
    n.Lies k.span.start k.span.stop := by
  have below := nodes_subset_of_mem_children hm
  rcases h.encloses k k.mem_nodes_self n hm with covers | ⟨d, p, -, rfl, -⟩
  · have := Span.contains_iff.1 covers
    exact ⟨fun j hj => h.encloses j (below hj), this.1, this.2⟩
  · exact absurd rfl (plain p)

/-- A node in the place of another, over some of what stood below that. -/
theorem rewrap (h : k.Lies lo hi) (below : n.children ⊆ k.children)
    (plain : ∀ p, .pragma p ∉ n.children) (first : n.span.start = k.span.start)
    (longer : k.span.stop ≤ n.span.stop) (last : n.span.stop ≤ hi) : n.Lies lo hi := by
  refine above (first ▸ h.first) last fun m hm => .inl ?_
  refine (h.child (below hm) ?_).mono (Nat.le_of_eq first) longer
  rintro p rfl
  exact plain p hm

end Lies

end Node

/-- Nodes in a row lie where the row does. -/
theorem Row.lies {size lo hi : Nat} {ns : List Node} (h : Row size lo hi ns) :
    ∀ n ∈ ns, n.Lies lo hi := fun n hn =>
  ⟨fun m hm k hk => .inl ((h.placed n hn m hm).covers k hk), (h.within n hn).1, (h.within n hn).2.2⟩

namespace Grammar

variable {α β γ : Type} {s x : Setting} {b c c' : Cursor} {m w : Bool} {ns ms : List Node}

/-! ### Nodes after a place -/

/-- A place where the tokens are in order and the annotations wait. -/
structure Place (s : Setting) (c : Cursor) : Prop where
  order : InOrder s c
  waits : Waits s c

/-- Where the nodes end that lie before a place: with the last token read, or, when annotations were
taken after it, where the next token begins. -/
def edge (w : Bool) (s : Setting) (c : Cursor) : Nat :=
  if w then (s.next c).span.start else c.lastStop

/-- Between the place `b` and the current one lie the given nodes, and when `w` holds, annotations
taken since the last token are among them.  When `m` holds, the token at `b` is passed over. -/
structure Spread (x : Setting) (b : Cursor) (m w : Bool) (ns : List Node) (s : Setting) (c : Cursor) :
    Prop where
  setting : s = x
  begins : Place x b
  stands : InOrder x c
  onward : Onward x b c
  further : Further b c
  passed : m = true → b.rest ≠ [] ∧ (x.next b).span.stop ≤ c.lastStop ∧ b.index < c.index
  lies : ∀ n ∈ ns, n.Lies (x.next b).span.start (edge w x c)

/-- Wherever the rule begins, what it gives lies between that place and the last token read. -/
def Spreads (r : Rule α) (made : α → List Node) : Prop :=
  ∀ x b, Place x b → Triple (AtCursor x b) r fun a => Spread x b false false (made a)

/-- The rule passes over the token that it begins at; what it gives lies from there to the last
token read. -/
def Spans (r : Rule α) (made : α → List Node) : Prop :=
  ∀ x b, Place x b → b.rest ≠ [] → Triple (AtCursor x b) r fun a => Spread x b true false (made a)

theorem InOrder.lastStop_le_edge (h : InOrder s c) (w : Bool) : c.lastStop ≤ edge w s c := by
  cases w
  · exact Nat.le_refl _
  · exact h.lastStop_le

theorem InOrder.edge_le (h : InOrder s c) (w : Bool) : edge w s c ≤ (s.next c).span.start := by
  cases w
  · exact h.lastStop_le
  · exact Nat.le_refl _

theorem Onward.edge_le (h : Onward s c c') (first : InOrder s c) (last : InOrder s c') (w : Bool) :
    edge w s c ≤ edge w s c' := by
  cases w
  · exact h.lastStop_le first
  · exact h.start_le last

namespace Spread

theorem here (hb : Place x b) : Spread x b false false [] x b :=
  ⟨rfl, hb, hb.order, .refl x b, .refl b, nofun, List.forall_mem_nil _⟩

theorem place (h : Spread x b m w ns s c) : Place x c :=
  ⟨h.stands, h.begins.waits.further h.further⟩

theorem forget (h : Spread x b m w ns s c) : Spread x b false w ns s c :=
  { h with passed := nofun }

theorem sub (h : Spread x b m w ns s c) (sub : ms ⊆ ns) : Spread x b m w ms s c :=
  { h with lies := fun n hn => h.lies n (sub hn) }

/-- What is below a node that lies there, and no annotation, lies there, too. -/
theorem below {k : Node} (h : Spread x b m w ns s c) (mem : k ∈ ns)
    (plain : ∀ p, .pragma p ∉ k.children) : Spread x b m w k.children s c := by
  refine { h with lies := fun n hn => ?_ }
  have place := h.lies k mem
  refine (place.child hn ?_).mono place.first place.last
  rintro p rfl
  exact plain p hn

/-- What lies before the last token read lies before the next one, too. -/
theorem wait (h : Spread x b m w ns s c) : Spread x b m true ns s c :=
  { h with lies := fun n hn => (h.lies n hn).mono (Nat.le_refl _) (h.stands.edge_le w) }

theorem still : Still (Spread x b m w ns) := by
  rintro s c c' ⟨rest, stop, index, pragmas⟩ ⟨setting, begins, stands, onward, further, passed, lies⟩
  have order := stands.of_same rest stop
  have same : edge w x c' = edge w x c := by
    unfold edge
    rw [stop, next_of_rest rest]
  refine ⟨setting, begins, order, onward.trans (.inl ⟨rest, stop⟩) stands, ?_, ?_, same ▸ lies⟩
  · exact further.trans (.of_same rest index (pragmas ▸ List.Subset.refl _))
  · rwa [stop, index]

/-- A rule that builds nothing. -/
theorem quiet {r : Rule α} (h : Moves r) :
    Triple (Spread x b m w ns) r fun _ => Spread x b m w ns := by
  rintro s c a c' ⟨rfl, begins, stands, onward, further, passed, lies⟩ hrun
  have moves := h s c
  rw [hrun] at moves
  obtain ⟨order, on⟩ : InOrder s c' ∧ Onward s c c' := moves.1 stands
  have fed : Further c c' := moves.2
  have stop : c.lastStop ≤ c'.lastStop := on.lastStop_le stands
  have index : c.index ≤ c'.index := fed.index
  refine ⟨rfl, begins, order, onward.trans on stands, further.trans fed, fun yes => ?_, fun n hn => ?_⟩
  · obtain ⟨some, reached, counted⟩ := passed yes
    exact ⟨some, Nat.le_trans reached stop, Nat.lt_of_lt_of_le counted index⟩
  · exact (lies n hn).mono (Nat.le_refl _) (on.edge_le stands order w)

/-- What lies after a place, and what lies after a later one. -/
theorem join {m' : Bool} (h : Spread x b m w ns s c) (h' : Spread x c m' false ms s c') :
    Spread x b m w (ns ++ ms) s c' := by
  obtain ⟨rfl, begins, stands, onward, further, passed, lies⟩ := h
  obtain ⟨-, -, order, on, fed, -, new⟩ := h'
  have stop := on.lastStop_le stands
  refine ⟨rfl, begins, order, onward.trans on stands, further.trans fed, fun yes => ?_, fun n hn => ?_⟩
  · obtain ⟨some, reached, counted⟩ := passed yes
    exact ⟨some, Nat.le_trans reached stop, Nat.lt_of_lt_of_le counted fed.index⟩
  · rcases List.mem_append.1 hn with hn | hn
    · exact (lies n hn).mono (Nat.le_refl _) (on.edge_le stands order w)
    · exact (new n hn).mono (onward.start_le stands) (order.lastStop_le_edge w)

/-- What a rule spreads comes after what lies there already. -/
theorem spread {r : Rule α} {made : α → List Node} (h : Spreads r made) :
    Triple (Spread x b m w ns) r fun a => Spread x b m w (ns ++ made a) :=
  fun _ c _ _ sp hrun => sp.join (h x c sp.place ⟨sp.setting, rfl⟩ hrun)

theorem span {r : Rule α} {made : α → List Node} (h : Spans r made) :
    Triple (fun s c => Spread x b m w ns s c ∧ c.rest ≠ []) r fun a => Spread x b m w (ns ++ made a) :=
  fun _ c _ _ sp hrun => sp.1.join (h x c sp.1.place sp.2 ⟨sp.1.setting, rfl⟩ hrun)

/-- When a token is passed over, so is the one at the place, and what lay before it lies before the
last token read. -/
theorem advance : Triple (fun s c => Spread x b m w ns s c ∧ c.rest ≠ []) advance
    fun _ => Spread x b true false ns := by
  refine Triple.advance (fun s c h => h.2) ?_
  rintro s c t rest ⟨⟨rfl, begins, stands, onward, further, passed, lies⟩, some⟩ parts
  have next : s.next c = t := next_of_cons parts
  obtain ⟨before, row⟩ := List.pairwise_cons.1 (parts ▸ stands.row)
  have here := stands.goes t (parts ▸ List.mem_cons_self)
  -- The token is the next of a row, so all that is left comes behind it.
  have order : InOrder s (Triple.past c t rest) := by
    refine ⟨stands.finish, here.2, fun u hu => ?_, before, row⟩
    exact stands.goes u (parts ▸ List.mem_cons_of_mem _ hu)
  -- The place moves on to where this token ends.
  have on : Onward s c (Triple.past c t rest) := .inr (Nat.le_of_eq (next ▸ rfl))
  have fed : Further c (Triple.past c t rest) := by
    refine ⟨Nat.le_succ _, ?_, List.Subset.refl _⟩
    show rest = c.rest.drop (c.index + 1 - c.index)
    rw [Nat.add_sub_cancel_left, parts]
    rfl
  refine ⟨rfl, begins, order, onward.trans on stands, further.trans fed, fun _ => ⟨?_, ?_, ?_⟩, ?_⟩
  · intro none
    have := further.rest
    rw [none, List.drop_nil] at this
    exact some this
  -- The first token passed over was the one at the place, if none was before.
  · rcases onward.trans on stands with ⟨same, -⟩ | reached
    · have one : rest.length = b.rest.length := congrArg List.length same
      have two : rest.length + 1 ≤ b.rest.length := by
        have := congrArg List.length (further.rest.symm.trans parts)
        rw [List.length_drop, List.length_cons] at this
        omega
      omega
    · exact reached
  · exact Nat.lt_succ_of_le further.index
  · intro n hn
    have := stands.edge_le w
    refine (lies n hn).mono (Nat.le_refl _) (Nat.le_trans this ?_)
    rw [next]
    exact t.span.ordered

end Spread

/-! ### Rules in a row -/

namespace AtCursor

variable {Q : β → Assertion}

theorem spread (hb : Place x b) {r : Rule β} (h : Triple (Spread x b false false []) r Q) :
    Triple (AtCursor x b) r Q := by
  refine h.imp ?_
  rintro s c ⟨rfl, rfl⟩
  exact Spread.here hb

/-- The first token is passed over. -/
theorem advance_spread (hb : Place x b) (some : b.rest ≠ []) {f : Token → Rule β}
    (h : Triple (Spread x b true false []) (f (x.next b)) Q) :
    Triple (AtCursor x b) (Grammar.advance >>= f) Q := by
  rintro s c a c' ⟨rfl, rfl⟩ hrun
  obtain ⟨t, c₁, hadvance, hrest⟩ := bind_eq_ok_iff.1 hrun
  have sp := Spread.advance ⟨Spread.here hb, some⟩ hadvance
  obtain ⟨_ | ⟨first, rest⟩, index, lastStop, pragmas, usage, declared, errors⟩ := c
  · cases some rfl
  · cases hadvance
    exact h sp hrest

end AtCursor

/-- What stands in a row is spread. -/
theorem Spreads.of_lays {r : Rule α} {made : α → List Node} (h : Lays r made) (hm : Moves r) :
    Spreads r made := by
  intro x b hb s c a c' at_ hrun
  have rows := h x b hb.order at_ hrun
  have sp := AtCursor.spread hb (Spread.quiet hm) at_ hrun
  exact { sp with lies := rows.row.lies }

theorem Spreads.of_spread {r : Rule α} {made : α → List Node}
    (h : ∀ x b, Triple (Spread x b false false []) r fun a => Spread x b false false (made a)) :
    Spreads r made :=
  fun x b hb => AtCursor.spread hb (h x b)

theorem Spreads.tooDeep {made : α → List Node} : Spreads (tooDeep : Rule α) made :=
  fun _ _ _ => .tooDeep

theorem Spans.tooDeep {made : α → List Node} : Spans (tooDeep : Rule α) made :=
  fun _ _ _ _ => .tooDeep

/-- A bracket that leaves the place as it is. -/
theorem AtCursor.bracket {before after : Cursor → Cursor} {r : Rule α} {made : α → List Node}
    (hb : ∀ c, SamePlace c (before c)) (ha : ∀ c, SamePlace c (after c)) (first : Place x b)
    (h : Place x (before b) →
      Triple (AtCursor x (before b)) r fun a => Spread x (before b) m false (made a)) :
    Triple (AtCursor x b) (bracket before after r) fun a => Spread x b m false (made a) := by
  have stays := hb b
  have fed : Further b (before b) :=
    .of_same stays.rest stays.index (stays.pragmas ▸ List.Subset.refl _)
  have place : Place x (before b) :=
    ⟨first.order.of_same stays.rest stays.lastStop, first.waits.further fed⟩
  refine Triple.bracket (h place) ?_ ?_
  · rintro s c ⟨rfl, rfl⟩
    exact ⟨rfl, rfl⟩
  · intro a s c sp
    obtain ⟨setting, -, stands, onward, further, passed, lies⟩ := Spread.still (ha c) sp
    have next := next_of_rest (s := x) stays.rest
    rw [next] at passed lies
    rw [stays.rest, stays.index] at passed
    have same : Onward x b (before b) := .inl ⟨stays.rest, stays.lastStop⟩
    exact ⟨setting, first, stands, same.trans onward place.order, fed.trans further, passed, lies⟩

theorem Spreads.nested {r : Rule α} {made : α → List Node} (h : Spreads r made) :
    Spreads (nested r) made := fun x _ first =>
  AtCursor.bracket (fun _ => ⟨rfl, rfl, rfl, rfl⟩) (fun _ => ⟨rfl, rfl, rfl, rfl⟩) first (h x _)

theorem Spans.nested {r : Rule α} {made : α → List Node} (h : Spans r made) :
    Spans (nested r) made := fun x _ first some =>
  AtCursor.bracket (fun _ => ⟨rfl, rfl, rfl, rfl⟩) (fun _ => ⟨rfl, rfl, rfl, rfl⟩) first
    fun place => h x _ place some

namespace Spread

variable {Q : β → Assertion}

/-! ### Tokens that come next -/

theorem more (h : Spread x b m w ns s c) (goes : (s.next c).lexeme.isFinish = false) :
    c.rest ≠ [] := by
  obtain rfl := h.setting
  exact h.stands.some_of_lexeme goes

theorem sees (t : Terminal) : Triple (Spread x b m w ns) (Grammar.sees t) fun yes s c =>
    Spread x b m w ns s c ∧ (yes = true → c.rest ≠ []) :=
  (Triple.sees t).post fun _ _ _ ⟨sp, seen⟩ =>
    ⟨sp, fun yes => sp.more (Lexeme.goes_of_is (seen.trans yes))⟩

theorem expect (t : Terminal) :
    Triple (Spread x b m w ns) (Grammar.expect t) fun _ => Spread x b true false ns := by
  refine Triple.bind (sees t) fun yes => .ite (fun seen => ?_) fun _ => .failExpecting _
  exact advance.imp fun s c h => ⟨h.1, h.2 seen⟩

/-- The text goes on, or the construct that `opener` opens is not closed. -/
theorem unlessEnd {opener : Token} {close : Keyword} {k : Rule β}
    (h : Triple (fun s c => Spread x b m w ns s c ∧ c.rest ≠ []) k Q) :
    Triple (Spread x b m w ns) (do
      if ← atEnd then failUnclosed opener close
      k) Q := by
  refine Triple.bind Triple.atEnd fun ends => .ite (fun _ => ?_) fun goes => ?_
  · exact Triple.bind (R := fun _ _ _ => False) (.fail _) fun _ _ _ _ _ never => never.elim
  · refine h.imp fun s c hc => ⟨hc.1, hc.1.more (hc.2.trans ?_)⟩
    exact eq_false_of_ne_true goes

/-! ### Nodes -/

/-- A node that begins at the first token, above some of what lies there. -/
theorem node {build : Span → α} {made : α → List Node} (root : Span → Node)
    (h : ∀ s, made (build s) = [root s] ∧ (root s).span = s ∧ (root s).children ⊆ ns) :
    Triple (Spread x b true false ns) (Grammar.node (x.next b).span build)
      fun a => Spread x b true false (made a) := by
  refine still.nodeAt fun span s c sp first last => ?_
  obtain ⟨only, place, below⟩ := h span
  obtain ⟨-, reached, -⟩ := sp.passed rfl
  have stop : span.stop = c.lastStop := last.trans (Nat.max_eq_left reached)
  rw [only]
  refine { sp with lies := List.forall_mem_singleton.2 (.above ?_ ?_ fun k hk => .inl ?_) }
  · rw [place, first]
  · rw [place, stop]
    exact Nat.le_refl _
  · rw [place, first, stop]
    exact sp.lies k (below hk)

/-- A node in the place of one that lies there, over some of what is below that. -/
theorem rewrap {build : Span → α} {made : α → List Node} {k : Node} (root : Span → Node)
    (mem : k ∈ ns) (h : ∀ s, made (build s) = [root s] ∧ (root s).span = s ∧
      (root s).children ⊆ k.children ∧ ∀ p, .pragma p ∉ (root s).children) :
    Triple (Spread x b m w ns) (Grammar.node k.span build)
      fun a => Spread x b m w (ns ++ made a) := by
  refine still.nodeAt fun span s c sp first last => ?_
  obtain ⟨only, place, below, plain⟩ := h span
  have old := sp.lies k mem
  obtain rfl := sp.setting
  rw [only]
  refine { sp with lies := List.forall_mem_append.2 ⟨sp.lies, List.forall_mem_singleton.2 ?_⟩ }
  refine old.rewrap below plain ?_ ?_ ?_
  · rw [place, first]
  · rw [place, last]
    exact Nat.le_max_right ..
  · rw [place, last]
    exact Nat.max_le.2 ⟨sp.stands.lastStop_le_edge w, old.last⟩

/-! ### Loops -/

/-- The rule says yes only where a token comes next. -/
def Foresees (more : Rule Bool) : Prop :=
  ∀ P : Assertion, Triple P more fun yes s c =>
    P s c ∧ (yes = true → (s.next c).lexeme.isFinish = false)

theorem many (top : α → Node) {more : Rule Bool} {item : Nat → Rule (List α)} (hmore : Foresees more)
    (hitem : ∀ size x b, Place x b → b.rest ≠ [] →
      Triple (AtCursor x b) (item size) fun ys => Spread x b false false (ys.map top))
    (n size : Nat) :
    Triple (Spread x b m w ns) (many more item n size) fun xs => Spread x b m w (ns ++ xs.map top) := by
  let ahead (xs : List α) : Assertion := fun s c => Spread x b m w (ns ++ xs.map top) s c ∧ c.rest ≠ []
  have looks (xs : List α) : Triple (Spread x b m w (ns ++ xs.map top)) more
      fun yes => cond yes (ahead xs) (Spread x b m w (ns ++ xs.map top)) :=
    (hmore _).post fun yes s c h => by
      cases yes
      · exact h.1
      · exact ⟨h.1, h.1.more (h.2 rfl)⟩
  have reads (xs : List α) (size : Nat) : Triple (ahead xs) (item size)
      fun ys => Spread x b m w (ns ++ (xs ++ ys).map top) := by
    rintro s c ys c' ⟨sp, some⟩ hrun
    rw [List.map_append, ← List.append_assoc]
    exact sp.join (hitem size x c sp.place some ⟨sp.setting, rfl⟩ hrun)
  have loop := Triple.many looks reads n size []
  simpa only [List.map_nil, List.append_nil, List.nil_append] using loop

/-- A part that may be left out. -/
theorem optional {p : Prop} [Decidable p] {r : Rule α} {top : α → Node} {f : Option α → Rule β}
    (h : Spreads r fun a => [top a])
    (hf : ∀ o : Option α, Triple (Spread x b m w (ns ++ o.toList.map top)) (f o) Q) :
    Triple (Spread x b m w ns) (if p then some <$> r >>= f else pure none >>= f) Q := by
  refine Triple.optional (R := fun o => Spread x b m w (ns ++ o.toList.map top)) (fun _ => spread h)
    (fun _ s c sp => ?_) hf
  simpa only [Option.toList_none, List.map_nil, List.append_nil] using sp

/-- What is recovered from builds nothing. -/
theorem recovering {r : Rule α} {made : α → List Node} {stops : Lexeme → Bool} {pastSemicolon : Bool}
    (hup : Moves r) (h : Spreads r made) :
    Spreads (recovering stops pastSemicolon r) fun o => o.elim [] made := by
  intro x b hb
  refine Triple.recovering (h x b hb) ?_
  rintro s c c' ⟨rfl, rfl⟩ hrun
  exact quiet (hup.recovering stops pastSemicolon) (here hb) hrun

end Spread

end Grammar

end Plc

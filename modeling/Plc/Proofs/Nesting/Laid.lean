/-
What a rule lays out.

What a rule builds stands side by side between the token it began at and the last one it read.  A
node above some of that begins with the first token and ends with the last.

* `Rows` — nodes side by side between a place and the current one;
* `Lays` — what a rule has built, wherever it began;
* `Rows.node`, `Rows.extend` — a node that begins at the place, or where the first node does;
* `Touches` — nodes of which the last may be an empty place before the next token.
-/
import Plc.Proofs.Grammar.Ahead
import Plc.Proofs.Nesting.Cursor
import Plc.Proofs.Nesting.Tree

namespace Plc

theorem Lexeme.goes_of_is {l : Lexeme} {t : Terminal} (h : l.is t = true) : l.isFinish = false := by
  cases l <;> first | rfl | cases h

namespace Grammar

variable {α β γ : Type} {x : Setting} {b : Cursor} {m : Bool} {ns : List Node}

/-! ### Nodes after a place -/

/-- The reading stands at the given place. -/
def AtCursor (x : Setting) (b : Cursor) : Assertion := fun s c => s = x ∧ c = b

/-- Between the place `b` and the current one stand the given nodes.  When `m` holds, the token at
`b` is passed over, and is not the end of the text. -/
structure Rows (x : Setting) (b : Cursor) (m : Bool) (ns : List Node) (s : Setting) (c : Cursor) :
    Prop where
  setting : s = x
  begins : InOrder x b
  stands : InOrder x c
  onward : Onward x b c
  passed : m = true → b.rest ≠ [] ∧ (x.next b).span.stop ≤ c.lastStop
  row : Row x.source.length (x.next b).span.start c.lastStop ns

/-- Wherever the rule begins, what it gives stands between that place and the last token read. -/
def Lays (r : Rule α) (made : α → List Node) : Prop :=
  ∀ x b, InOrder x b → Triple (AtCursor x b) r fun a => Rows x b false (made a)

/-- The rule lays out what it gives, unless it begins at the end of the text. -/
def Opens (r : Rule α) (made : α → List Node) : Prop :=
  ∀ x b, InOrder x b → b.rest ≠ [] → Triple (AtCursor x b) r fun a => Rows x b false (made a)

/-- A rule that changes nothing leaves everything as it was. -/
theorem Triple.look {P : Assertion} {r : Rule α} (h : ∀ s c, cursorAfter (r s c) = c) :
    Triple P r fun _ => P := by
  intro s c a c' hc hrun
  have same := h s c
  rw [hrun] at same
  obtain rfl : c' = c := same
  exact hc

namespace Rows

theorem here (hb : InOrder x b) : Rows x b false [] x b :=
  ⟨rfl, hb, hb, .refl x b, nofun, .nil _ _ _⟩

theorem forget {s : Setting} {c : Cursor} (h : Rows x b m ns s c) : Rows x b false ns s c :=
  { h with passed := nofun }

theorem stable : Stable (Rows x b m ns) := by
  intro s c c' rest stop h
  obtain ⟨setting, begins, stands, onward, passed, row⟩ := h
  refine ⟨setting, begins, stands.of_same rest stop, ?_, stop ▸ passed, stop ▸ row⟩
  exact onward.trans (.inl ⟨rest, stop⟩) stands

/-- A rule that builds nothing. -/
theorem quiet {r : Rule α} (h : Proceeds r) : Triple (Rows x b m ns) r fun _ => Rows x b m ns := by
  rintro s c a c' ⟨rfl, begins, stands, onward, passed, row⟩ hrun
  have moves := h s c stands
  rw [hrun] at moves
  obtain ⟨order, on⟩ : InOrder s c' ∧ Onward s c c' := moves
  have further : c.lastStop ≤ c'.lastStop := on.lastStop_le stands
  exact ⟨rfl, begins, order, onward.trans on stands,
    fun yes => ⟨(passed yes).1, Nat.le_trans (passed yes).2 further⟩, row.mono further⟩

/-- What stands after a place, and what stands after a later one. -/
theorem join {ms : List Node} {s : Setting} {c c' : Cursor} (h : Rows x b m ns s c)
    (h' : Rows x c false ms s c') : Rows x b m (ns ++ ms) s c' := by
  obtain ⟨rfl, begins, stands, onward, passed, row⟩ := h
  obtain ⟨-, -, order, on, -, new⟩ := h'
  have further : c.lastStop ≤ c'.lastStop := on.lastStop_le stands
  refine ⟨rfl, begins, order, onward.trans on stands,
    fun yes => ⟨(passed yes).1, Nat.le_trans (passed yes).2 further⟩, ?_⟩
  exact row.append new (onward.start_le stands) stands.lastStop_le further

/-- What a rule lays out comes after what stands there already. -/
theorem lay {r : Rule α} {made : α → List Node} (h : Lays r made) :
    Triple (Rows x b m ns) r fun a => Rows x b m (ns ++ made a) :=
  fun _ c _ _ rows hrun => rows.join (h x c rows.stands ⟨rows.setting, rfl⟩ hrun)

/-- Where some node that is not empty stands, the first token is passed over. -/
theorem of_mem {s : Setting} {c : Cursor} {k : Node} (h : Rows x b m ns s c) (mem : k ∈ ns)
    (goes : k.isGap = false) : Rows x b true ns s c := by
  refine { h with passed := fun _ => ?_ }
  have place := h.row.within k mem
  have some := (h.row.placed k mem k k.mem_nodes_self).goes goes
  have inside := h.stands.inside
  constructor
  · intro none
    have ends := congrArg (·.span.start) (h.begins.next_finish none)
    have : (x.next b).span.start = x.source.length := ends
    omega
  · rcases h.onward with ⟨-, stop⟩ | passed
    · have := h.begins.lastStop_le
      omega
    · exact passed

end Rows

/-! ### Rules in a row -/

namespace AtCursor

variable {Q : β → Assertion}

theorem rows (hb : InOrder x b) {r : Rule β} (h : Triple (Rows x b false []) r Q) :
    Triple (AtCursor x b) r Q := by
  refine h.imp ?_
  rintro s c ⟨rfl, rfl⟩
  exact Rows.here hb

theorem peek {f : Token → Rule β} (h : Triple (AtCursor x b) (f (x.next b)) Q) :
    Triple (AtCursor x b) (Grammar.peek >>= f) Q := by
  rintro s c a c' ⟨rfl, rfl⟩ hrun
  exact h ⟨rfl, rfl⟩ hrun

theorem lexeme {f : Lexeme → Rule β} (h : Triple (AtCursor x b) (f (x.next b).lexeme) Q) :
    Triple (AtCursor x b) (Grammar.lexeme >>= f) Q := by
  rintro s c a c' ⟨rfl, rfl⟩ hrun
  exact h ⟨rfl, rfl⟩ hrun

/-- The first token is passed over. -/
theorem advance (hb : InOrder x b) (some : b.rest ≠ []) {f : Token → Rule β}
    (h : Triple (Rows x b true []) (f (x.next b)) Q) :
    Triple (AtCursor x b) (Grammar.advance >>= f) Q := by
  rintro s c a c' ⟨rfl, rfl⟩ hrun
  obtain ⟨t, c₁, hadvance, hrest⟩ := bind_eq_ok_iff.1 hrun
  obtain ⟨order, -⟩ := Proceeds.advance s c hb
  rw [hadvance] at order
  obtain ⟨_ | ⟨first, rest⟩, index, lastStop, pragmas, usage, declared, errors⟩ := c
  · cases some rfl
  · cases hadvance
    exact h ⟨rfl, hb, order, .inr (Nat.le_refl _), fun _ => ⟨some, Nat.le_refl _⟩, .nil _ _ _⟩ hrest

end AtCursor

namespace Lays

variable {r : Rule α} {made : α → List Node}

theorem of_rows (h : ∀ x b, Triple (Rows x b false []) r fun a => Rows x b false (made a)) :
    Lays r made :=
  fun x b hb => AtCursor.rows hb (h x b)

theorem bracket {before after : Cursor → Cursor}
    (hb : ∀ c, (before c).rest = c.rest ∧ (before c).lastStop = c.lastStop)
    (ha : ∀ c, (after c).rest = c.rest ∧ (after c).lastStop = c.lastStop) (h : Lays r made) :
    Lays (bracket before after r) made := by
  intro x b first
  refine Triple.bracket (h x (before b) (first.of_same (hb b).1 (hb b).2)) ?_ ?_
  · rintro s c ⟨rfl, rfl⟩
    exact ⟨rfl, rfl⟩
  · intro a s c rows
    obtain ⟨setting, begins, stands, onward, -, row⟩ := Rows.stable (ha c).1 (ha c).2 rows
    have place := next_of_rest (s := x) (hb b).1
    refine ⟨setting, first, stands, ?_, nofun, place ▸ row⟩
    rcases onward with ⟨rest, stop⟩ | passed
    · exact .inl ⟨rest.trans (hb b).1, stop.trans (hb b).2⟩
    · exact .inr (place ▸ passed)

theorem nested (h : Lays r made) : Lays (nested r) made :=
  h.bracket (fun _ => ⟨rfl, rfl⟩) fun _ => ⟨rfl, rfl⟩

theorem declaring (names : List String) (h : Lays r made) : Lays (declaring names r) made :=
  h.bracket (fun _ => ⟨rfl, rfl⟩) fun _ => ⟨rfl, rfl⟩

theorem tooDeep : Lays (tooDeep : Rule α) made :=
  fun _ _ _ => .tooDeep

end Lays

/-! ### A node above others -/

namespace Rows

/-- A node that begins at the first token, above some of what stands there. -/
theorem node {build : Span → α} {made : α → List Node} (root : Span → Node)
    (h : ∀ s, made (build s) = [root s] ∧ (root s).span = s ∧ (root s).children.Sublist ns) :
    Triple (Rows x b true ns) (node (x.next b).span build) fun a => Rows x b false (made a) := by
  refine stable.nodeAt fun span s c rows first last => ?_
  obtain ⟨only, place, below⟩ := h span
  obtain ⟨some, passed⟩ := rows.passed rfl
  have goes := rows.begins.next_goes some
  have inside := rows.stands.inside
  rw [only]
  refine { rows.forget with row := rows.row.above below ?_ ?_ ?_ ?_ inside }
  · exact Nat.le_of_eq (first.symm.trans (congrArg Span.start place).symm)
  · intro k hk
    rw [place, first]
    exact (rows.row.within k (below.subset hk)).1
  · rw [place, last]
    omega
  · rw [place, first]
    omega

/-- A node that begins where the first of those that stand there does. -/
theorem extend {build : Span → α} {g : α → List Node} {k : Node} (root : Span → Node)
    (goes : k.isGap = false)
    (h : ∀ s, g (build s) = [root s] ∧ (root s).span = s ∧
      (root s).children.Sublist (k :: ns)) :
    Triple (Rows x b m (k :: ns)) (Grammar.node k.span build) fun a => Rows x b m (g a) := by
  refine stable.nodeAt fun span s c rows first last => ?_
  obtain ⟨only, place, below⟩ := h span
  have head := rows.row.within k List.mem_cons_self
  have some := (rows.row.placed k List.mem_cons_self k k.mem_nodes_self).goes goes
  rw [only]
  refine { rows with row := rows.row.above below ?_ ?_ ?_ ?_ rows.stands.inside }
  · rw [place, first]
    exact head.1
  · intro j hj
    rw [place, first]
    rcases List.mem_cons.1 (below.subset hj) with rfl | tail
    · exact Nat.le_refl _
    · exact Nat.le_of_lt ((List.pairwise_cons.1 rows.row.inOrder).1 j tail).2
  · rw [place, last]
    omega
  · rw [place, first]
    omega

/-- A node that begins at the first token, where some node stands that is not empty. -/
theorem nodeOver {build : Span → α} {g : α → List Node} {k : Node} (root : Span → Node)
    (mem : k ∈ ns) (goes : k.isGap = false)
    (h : ∀ s, g (build s) = [root s] ∧ (root s).span = s ∧ (root s).children.Sublist ns) :
    Triple (Rows x b m ns) (Grammar.node (x.next b).span build) fun a => Rows x b false (g a) :=
  (node root h).imp fun _ _ rows => rows.of_mem mem goes

/-! ### Loops -/

variable {r : Rule α} {top : α → Node} {spanOf : α → Span}

/-- One more item after those that stand there. -/
theorem next (h : Lays r fun a => [top a]) (xs : List α) :
    Triple (Rows x b m (ns ++ xs.map top)) r fun a => Rows x b m (ns ++ (xs ++ [a]).map top) :=
  (lay h).post fun a s c rows => by
    rwa [List.map_append, List.map_singleton, ← List.append_assoc]

theorem accept (t : Terminal) :
    Triple (Rows x b m ns) (Grammar.accept t) fun _ => Rows x b m ns :=
  quiet (proceeds.accept_rel t)

theorem commaList (h : Lays r fun a => [top a]) :
    Triple (Rows x b m ns) (commaList r spanOf) fun xs => Rows x b m (ns ++ xs.map top) := by
  have comma (xs : List α) : Triple (Rows x b m (ns ++ xs.map top)) (Grammar.accept Mark.comma)
      fun yes => cond yes (Rows x b m (ns ++ xs.map top)) (Rows x b m (ns ++ xs.map top)) :=
    (accept _).post fun yes _ _ rows => by cases yes <;> exact rows
  have loop : Triple _ (Grammar.commaList r spanOf) _ := Triple.commaList comma (next h)
  simpa only [List.map_nil, List.append_nil] using loop

/-- There is at least one item. -/
theorem commaList_ne_nil {xs : List α} {s : Setting} {c c' : Cursor}
    (h : Grammar.commaList r spanOf s c = .ok xs c') : xs ≠ [] := by
  obtain ⟨a, c₁, -, rest⟩ := bind_eq_ok_iff.1 h
  obtain ⟨l, c₂, -, rest⟩ := bind_eq_ok_iff.1 rest
  obtain ⟨tail, c₃, -, rest⟩ := bind_eq_ok_iff.1 rest
  cases rest
  exact List.cons_ne_nil a tail

theorem many (top : α → Node) {more : Rule Bool} {item : Nat → Rule (List α)} (hmore : Proceeds more)
    (hitem : ∀ size, Lays (item size) (List.map top)) (n size : Nat) :
    Triple (Rows x b m ns) (many more item n size) fun xs => Rows x b m (ns ++ xs.map top) := by
  have looks (xs : List α) : Triple (Rows x b m (ns ++ xs.map top)) more
      fun yes => cond yes (Rows x b m (ns ++ xs.map top)) (Rows x b m (ns ++ xs.map top)) :=
    (quiet hmore).post fun yes _ _ rows => by cases yes <;> exact rows
  have reads (xs : List α) (size : Nat) : Triple (Rows x b m (ns ++ xs.map top)) (item size)
      fun ys => Rows x b m (ns ++ (xs ++ ys).map top) :=
    (lay (hitem size)).post fun ys s c rows => by
      rwa [List.map_append, ← List.append_assoc]
  have loop := Triple.many looks reads n size []
  simpa only [List.map_nil, List.append_nil, List.nil_append] using loop

/-- Items that each begin with a given word. -/
theorem manySeen (top : α → Node) (t : Terminal) {item : Nat → Rule (List α)}
    (hitem : ∀ size, Opens (item size) (List.map top)) (n size : Nat) :
    Triple (Rows x b m ns) (Grammar.many (sees t) item n size) fun xs => Rows x b m (ns ++ xs.map top) := by
  let seen (xs : List α) : Assertion := fun s c =>
    Rows x b m (ns ++ xs.map top) s c ∧ (s.next c).lexeme.is t = true
  have looks (xs : List α) : Triple (Rows x b m (ns ++ xs.map top)) (sees t)
      fun yes => cond yes (seen xs) (Rows x b m (ns ++ xs.map top)) :=
    (Triple.sees t).post fun yes s c h => by
      cases yes
      · exact h.1
      · exact h
  have reads (xs : List α) (size : Nat) : Triple (seen xs) (item size)
      fun ys => Rows x b m (ns ++ (xs ++ ys).map top) := by
    rintro s c ys c' ⟨rows, word⟩ hrun
    obtain rfl := rows.setting
    have some := rows.stands.some_of_lexeme (Lexeme.goes_of_is word)
    rw [List.map_append, ← List.append_assoc]
    exact rows.join (hitem size s c rows.stands some ⟨rfl, rfl⟩ hrun)
  have loop := Triple.many looks reads n size []
  simpa only [List.map_nil, List.append_nil, List.nil_append] using loop

/-- A loop over one node, which takes in what comes. -/
theorem repeating {look : α → Rule (β ⊕ γ)} {step : α → γ → Rule (β ⊕ α)} (top : α → Node)
    {g : β → List Node}
    (hlook : ∀ a, Triple (Rows x b m [top a]) (look a)
      (Sum.elim (fun y => Rows x b m (g y)) fun _ => Rows x b m [top a]))
    (hstep : ∀ a k, Triple (Rows x b m [top a]) (step a k)
      (Sum.elim (fun y => Rows x b m (g y)) fun a => Rows x b m [top a])) (n : Nat) (a : α) :
    Triple (Rows x b m [top a]) (repeating look step n a) fun y => Rows x b m (g y) :=
  Triple.repeating (J := fun a _ => Rows x b m [top a]) hlook hstep n a

/-- A part that may be left out. -/
theorem optional {p : Prop} [Decidable p] {f : Option α → Rule β} {Q : β → Assertion}
    (h : Lays r fun a => [top a])
    (hf : ∀ o : Option α, Triple (Rows x b m (ns ++ o.toList.map top)) (f o) Q) :
    Triple (Rows x b m ns) (if p then some <$> r >>= f else pure none >>= f) Q := by
  refine Triple.optional (R := fun o => Rows x b m (ns ++ o.toList.map top)) (fun _ => lay h)
    (fun _ s c rows => ?_) hf
  simpa only [Option.toList_none, List.map_nil, List.append_nil] using rows

/-- What is recovered from builds nothing. -/
theorem recovering {stops : Lexeme → Bool} {pastSemicolon : Bool} (hup : Proceeds r)
    (h : Lays r fun a => [top a]) :
    Lays (recovering stops pastSemicolon r) fun o => o.toList.map top := by
  intro x b hb
  refine Triple.recovering (h x b hb) ?_
  rintro s c c' ⟨rfl, rfl⟩ hrun
  exact quiet (Proceeds.recovering stops pastSemicolon hup) (here hb) hrun

end Rows

/-! ### Empty places -/

/-- Between the place `b` and the current one stand the given nodes; the last of them may be an
empty place before the next token. -/
def Touches (x : Setting) (b : Cursor) (m : Bool) (ns : List Node) : Assertion := fun s c =>
  Rows x b m [] s c ∧
    Row x.source.length (x.next b).span.start ((x.next c).span.start + 1) ns

namespace Touches

theorem of_rows {s : Setting} {c : Cursor} (h : Rows x b m ns s c) : Touches x b m ns s c := by
  refine ⟨{ h with row := .nil _ _ _ }, h.row.mono ?_⟩
  have := h.stands.lastStop_le
  omega

/-- Nodes that touch the next token, after some that stand before it. -/
theorem append {ms : List Node} {s : Setting} {c c' : Cursor} (h : Rows x b m ns s c)
    (h' : Touches x c false ms s c') : Touches x b m (ns ++ ms) s c' := by
  obtain ⟨rfl, begins, stands, onward, passed, row⟩ := h
  obtain ⟨⟨-, -, order, on, -, -⟩, new⟩ := h'
  have further : c.lastStop ≤ c'.lastStop := on.lastStop_le stands
  refine ⟨⟨rfl, begins, order, onward.trans on stands,
    fun yes => ⟨(passed yes).1, Nat.le_trans (passed yes).2 further⟩, .nil _ _ _⟩, ?_⟩
  refine row.append new (onward.start_le stands) stands.lastStop_le ?_
  have := order.lastStop_le
  omega

/-- When the next token is passed over, what touched it stands before the place. -/
theorem pass (t : Terminal) {Q : Token → Assertion}
    (hq : ∀ t s c, Rows x b m ns s c → Q t s c) :
    Triple (fun s c => Touches x b m ns s c ∧ (s.ahead c 0).lexeme.is t = true) advance Q := by
  rintro s c u c' ⟨⟨⟨rfl, begins, stands, onward, passed, -⟩, row⟩, seen⟩ hrun
  have some : c.rest ≠ [] := by
    refine stands.some_of_lexeme ?_
    show (s.ahead c 0).lexeme.isFinish = false
    exact Lexeme.goes_of_is seen
  have again : Triple (AtCursor s c) advance fun u => Rows s c true [] := by
    have all := AtCursor.advance (f := pure) stands some (.pure (Q := fun _ => Rows s c true [])
      fun _ _ h => h)
    rwa [bind_pure] at all
  obtain ⟨-, -, order, on, reached, -⟩ := again ⟨rfl, rfl⟩ hrun
  have goes := stands.next_goes some
  have stop := (reached rfl).2
  have further : c.lastStop ≤ c'.lastStop := on.lastStop_le stands
  refine hq u s c' ⟨rfl, begins, order, onward.trans on stands,
    fun yes => ⟨(passed yes).1, Nat.le_trans (passed yes).2 further⟩, row.mono ?_⟩
  omega

theorem accept (t : Terminal) : Triple (Touches x b m ns) (accept t) fun yes =>
    cond yes (Rows x b m ns) (Touches x b m ns) := by
  refine (Triple.sees t).bind fun yes => .ite (fun seen => ?_) fun unseen => ?_
  · subst seen
    refine Triple.bind (R := fun _ => Rows x b m ns) (pass t fun _ _ _ rows => rows) fun _ => ?_
    exact .pure fun s c rows => rows
  · rw [Bool.not_eq_true] at unseen
    subst unseen
    exact .pure fun s c h => h.1

theorem expectClosing (t : Terminal) (opener : Token) (kind : SyntaxError.Kind) :
    Triple (Touches x b m ns) (expectClosing t opener kind) fun _ => Rows x b m ns := by
  refine (Triple.sees t).bind fun yes => .ite (fun seen => ?_) fun _ => ?_
  · subst seen
    refine Triple.bind (R := fun _ => Rows x b m ns) (pass t fun _ _ _ rows => rows) fun _ => ?_
    exact .pure fun s c rows => rows
  · exact Triple.atEnd.bind fun ends => .ite (fun _ => .fail _) fun _ => .failExpecting _

/-- Items with commas between them, of which each may be an empty place. -/
theorem listed {item : Rule α} {top : α → Node} {spanOf : α → Span}
    (hitem : ∀ x b, InOrder x b → Triple (AtCursor x b) item fun a => Touches x b false [top a])
    (n size : Nat) :
    Triple (Rows x b m ns) (listed (return true) item spanOf n size) fun xs =>
      Touches x b m (ns ++ xs.map top) := by
  have more (xs : List α) : Triple (Rows x b m (ns ++ xs.map top)) (return true : Rule Bool)
      fun yes => cond yes (Rows x b m (ns ++ xs.map top)) (Touches x b m (ns ++ xs.map top)) :=
    .pure fun s c rows => rows
  have checks (xs : List α) (size : Nat) (span : Span) :
      Triple (Touches x b m (ns ++ xs.map top)) (checkSize size span) fun _ =>
        Touches x b m (ns ++ xs.map top) := Triple.checkSize _ _
  have reads (xs : List α) : Triple (Rows x b m (ns ++ xs.map top)) item fun a =>
      Touches x b m (ns ++ (xs ++ [a]).map top) := by
    intro s c a c' rows hrun
    have new := hitem x c rows.stands ⟨rows.setting, rfl⟩ hrun
    rw [List.map_append, List.map_singleton, ← List.append_assoc]
    exact append rows new
  have loop : Triple _ (Grammar.listed (return true) item spanOf n size) _ :=
    Triple.listed more (fun xs => accept Mark.comma) checks reads n size []
  simpa only [List.map_nil, List.append_nil, List.nil_append] using loop

end Touches

end Grammar

end Plc

/-
What a rule sees of the tokens ahead.

An assertion is stable when it speaks of the tokens ahead and the last token read only, and still
when it speaks of the annotations that wait, too.  Counting nodes, checking bounds and keeping track
of names do not touch it.

* `Setting.ahead` — the tokens ahead, the end of the text again and again at last;
* `Still.nodeAt`, `Still.nested`, `Still.declaring` — rules that pass over no token;
* `Triple.peekAt`, `Triple.advance` — what is seen, and what is passed over.
-/
import Plc.Proofs.Grammar.Triple

namespace Plc.Terminal

/-- The lexeme of a token that is the reserved word or mark. -/
def lexeme : Terminal → Lexeme
  | .keyword k => .keyword k
  | .mark m => .mark m

theorem is_lexeme {l : Lexeme} {k : Terminal} (h : l.is k = true) : l = k.lexeme := by
  unfold Lexeme.is at h
  split at h
  · exact congrArg Lexeme.keyword (beq_iff_eq.1 h)
  · exact congrArg Lexeme.mark (beq_iff_eq.1 h)
  · cases h

end Plc.Terminal

namespace Plc.Grammar

variable {α β : Type}

/-- The token `n` places ahead. -/
def Setting.ahead (s : Setting) (c : Cursor) (n : Nat) : Token :=
  c.rest.getD n s.finish

/-- The assertion speaks of the tokens ahead and the last token read. -/
def Stable (P : Assertion) : Prop :=
  ∀ ⦃s c c'⦄, c'.rest = c.rest → c'.lastStop = c.lastStop → P s c → P s c'

/-- Nothing is passed over, and nothing is taken. -/
structure SamePlace (c c' : Cursor) : Prop where
  rest : c'.rest = c.rest
  lastStop : c'.lastStop = c.lastStop
  index : c'.index = c.index
  pragmas : c'.pragmas = c.pragmas

/-- The assertion speaks of the tokens and annotations left and the last token read. -/
def Still (P : Assertion) : Prop :=
  ∀ ⦃s c c'⦄, SamePlace c c' → P s c → P s c'

namespace Triple

variable {P : Assertion}

theorem checkLimit (kind : LimitKind) (value : Nat) (span : Span) :
    Triple P (checkLimit kind value span) fun _ => P := by
  intro s c u c' hc hrun
  obtain ⟨-, rfl⟩ := checkLimit_eq_ok hrun
  exact hc

theorem checkSize (size : Nat) (span : Span) : Triple P (checkSize size span) fun _ => P :=
  checkLimit _ _ _

theorem passes : Triple P passes fun _ => P := by
  intro s c n c' hc hrun
  cases hrun
  exact hc

/-- A span ends where the last token did. -/
theorem spanFrom (start : Span) : Triple P (spanFrom start)
    fun span s c => P s c ∧ span.start = start.start ∧ span.stop = max c.lastStop start.stop := by
  intro s c span c' hc hrun
  cases hrun
  exact ⟨hc, rfl, rfl⟩

theorem sourceText : Triple P sourceText fun source s c => P s c ∧ source = s.source := by
  intro s c source c' hc hrun
  cases hrun
  exact ⟨hc, rfl⟩

theorem dialect : Triple P dialect fun d s c => P s c ∧ d = s.dialect := by
  intro s c d c' hc hrun
  cases hrun
  exact ⟨hc, rfl⟩

theorem isDeclared (name : String) : Triple P (isDeclared name) fun _ => P := by
  intro s c b c' hc hrun
  cases hrun
  exact hc

end Triple

namespace Still

variable {P : Assertion}

theorem recordNode (h : Still P) (span : Span) : Triple P (recordNode span) fun _ => P := by
  refine Triple.bind (R := fun _ => P) ?_ fun _ => ?_
  · intro s c u c' hc hrun
    cases hrun
    exact @h s c _ ⟨rfl, rfl, rfl, rfl⟩ hc
  · refine Triple.bind (R := fun _ => P) ?_ fun _ => Triple.checkLimit _ _ _
    intro s c c₁ c' hc hrun
    cases hrun
    exact hc

/-- The span of a new node reaches to the last token read. -/
theorem nodeAt (still : Still P) {start : Span} {build : Span → α} {Q : α → Assertion}
    (h : ∀ span s c, P s c → span.start = start.start → span.stop = max c.lastStop start.stop →
      Q (build span) s c) : Triple P (node start build) Q := by
  refine (Triple.spanFrom start).bind fun span => ?_
  have kept : Still fun s c => P s c ∧ span.start = start.start ∧
      span.stop = max c.lastStop start.stop := by
    rintro s c c' stays ⟨before, first, last⟩
    exact ⟨still stays before, first, stays.lastStop ▸ last⟩
  refine (kept.recordNode span).bind fun _ => .pure fun s c hc => ?_
  exact h span s c hc.1 hc.2.1 hc.2.2

theorem bracket (h : Still P) {before after : Cursor → Cursor} {r : Rule α} {Q : α → Assertion}
    (hb : ∀ c, SamePlace c (before c)) (ha : ∀ c, SamePlace c (after c)) (hr : Triple P r Q)
    (hq : ∀ a, Still (Q a)) : Triple P (bracket before after r) Q :=
  hr.bracket (fun _ c hc => h (hb c) hc) fun a _ c hc => hq a (ha c) hc

theorem nested (h : Still P) {r : Rule α} {Q : α → Assertion} (hr : Triple P r Q)
    (hq : ∀ a, Still (Q a)) : Triple P (nested r) Q :=
  h.bracket (fun _ => ⟨rfl, rfl, rfl, rfl⟩) (fun _ => ⟨rfl, rfl, rfl, rfl⟩) hr hq

theorem declaring (h : Still P) {r : Rule α} {Q : α → Assertion} (names : List String)
    (hr : Triple P r Q) (hq : ∀ a, Still (Q a)) : Triple P (declaring names r) Q :=
  h.bracket (fun _ => ⟨rfl, rfl, rfl, rfl⟩) (fun _ => ⟨rfl, rfl, rfl, rfl⟩) hr hq

end Still

namespace Stable

variable {P : Assertion}

theorem still (h : Stable P) : Still P := fun _ _ _ stays => h stays.rest stays.lastStop

theorem nodeAt (h : Stable P) {start : Span} {build : Span → α} {Q : α → Assertion}
    (hq : ∀ span s c, P s c → span.start = start.start → span.stop = max c.lastStop start.stop →
      Q (build span) s c) : Triple P (Grammar.node start build) Q :=
  h.still.nodeAt hq

theorem node (h : Stable P) (start : Span) {build : Span → α} {Q : α → Assertion}
    (hq : ∀ span s c, P s c → Q (build span) s c) : Triple P (node start build) Q :=
  h.still.nodeAt fun span s c hc _ _ => hq span s c hc

theorem nested (h : Stable P) {r : Rule α} {Q : α → Assertion} (hr : Triple P r Q)
    (hq : ∀ a, Stable (Q a)) : Triple P (nested r) Q :=
  h.still.nested hr fun a => (hq a).still

theorem declaring (h : Stable P) {r : Rule α} {Q : α → Assertion} (names : List String)
    (hr : Triple P r Q) (hq : ∀ a, Stable (Q a)) : Triple P (declaring names r) Q :=
  h.still.declaring names hr fun a => (hq a).still

end Stable

namespace Triple

variable {P : Assertion}

/-! ### The tokens ahead -/

theorem peekAt (n : Nat) : Triple P (peekAt n) fun t s c => P s c ∧ s.ahead c n = t := by
  intro s c t c' hc hrun
  cases hrun
  exact ⟨hc, rfl⟩

theorem peek : Triple P peek fun t s c => P s c ∧ s.ahead c 0 = t :=
  peekAt 0

theorem lexemeAt (n : Nat) :
    Triple P (lexemeAt n) fun l s c => P s c ∧ (s.ahead c n).lexeme = l :=
  (peekAt n).bind fun t => pure fun s c hc => ⟨hc.1, by rw [hc.2]⟩

theorem lexeme : Triple P lexeme fun l s c => P s c ∧ (s.ahead c 0).lexeme = l :=
  lexemeAt 0

theorem sees (t : Terminal) :
    Triple P (sees t) fun b s c => P s c ∧ (s.ahead c 0).lexeme.is t = b :=
  lexeme.bind fun l => pure fun s c hc => ⟨hc.1, by rw [hc.2]⟩

theorem atEnd : Triple P atEnd fun b s c => P s c ∧ (s.ahead c 0).lexeme.isFinish = b :=
  lexeme.bind fun l => pure fun s c hc => ⟨hc.1, by rw [hc.2]⟩

/-- The cursor after the given token, before the given tokens. -/
def past (c : Cursor) (t : Token) (rest : List Token) : Cursor :=
  { c with rest := rest, index := c.index + 1, lastStop := t.span.stop }

/-- A token is passed over, unless the text ends here. -/
theorem advance {Q : Token → Assertion} (some_token : ∀ s c, P s c → c.rest ≠ [])
    (hq : ∀ s c t rest, P s c → c.rest = t :: rest → Q t s (past c t rest)) :
    Triple P advance Q := by
  intro s c t c' hc hrun
  obtain ⟨u, rest, hrest⟩ := List.exists_cons_of_ne_nil (some_token s c hc)
  obtain ⟨rest₀, index, lastStop, pragmas, usage, declared, errors⟩ := c
  cases hrest
  cases hrun
  exact hq s _ _ rest hc rfl

/-- What a fact follows from may be assumed. -/
theorem given {φ : Prop} {r : Rule α} {Q : α → Assertion} (h : ∀ s c, P s c → φ)
    (hr : φ → Triple P r Q) : Triple P r Q :=
  fun s c _ _ hc hrun => hr (h s c hc) hc hrun

end Triple

theorem advance_cons {s : Setting} {c : Cursor} {t : Token} {rest : List Token}
    (h : c.rest = t :: rest) : advance s c = .ok t (Triple.past c t rest) := by
  obtain ⟨_, _, _, _, _, _, _⟩ := c
  cases h
  rfl

theorem advance_nil {s : Setting} {c : Cursor} (h : c.rest = []) :
    advance s c = .ok s.finish { c with lastStop := s.finish.span.stop } := by
  obtain ⟨_, _, _, _, _, _, _⟩ := c
  cases h
  rfl

end Plc.Grammar

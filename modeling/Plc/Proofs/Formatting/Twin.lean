/-
Two texts that are laid out differently, read side by side.

The texts are cut into the same words, at different places.  A reading never turns on a place: as
long as the words ahead and the counters are the same on both sides, both sides go on alike, and
what they give differs in places only.

* `Pair` — two settings that differ in the text and its places;
* `Twin` — a rule gives alike results on both sides, or fails alike;
* `Twin.bind`, `Twin.node`, `Twin.expect`, … — rules in a row, a new node, single tokens;
* `Twin.repeating`, `Twin.many`, `Twin.listed`, `Twin.commaList` — loops.
-/
import Plc.Proofs.Formatting.Shape
import Plc.Proofs.Grammar.Run
import Plc.Proofs.RoundTrip.Word
import Mathlib.Data.List.GetD

namespace Plc

/-- The readings ended for reasons of the same kind. -/
inductive Fault.SameKind : Fault → Fault → Prop
  | grammar {e e' : SyntaxError} (kind : e.kind = e'.kind) : SameKind (.grammar e) (.grammar e')
  | limit {e e' : LimitError} (kind : e.kind = e'.kind) : SameKind (.limit e) (.limit e')
  | unreadableDigits : SameKind .unreadableDigits .unreadableDigits
  | infiniteDuration : SameKind .infiniteDuration .infiniteDuration
  | endless : SameKind .endless .endless

/-- A token of the same word is the same token elsewhere. -/
theorem Token.elsewhere {t t' : Token} (h : t.word = t'.word) : ∃ s, t' = { t with span := s } := by
  obtain ⟨l, text, span⟩ := t'
  obtain ⟨rfl, rfl⟩ := Word.mk.inj h
  exact ⟨span, rfl⟩

namespace Grammar

variable {α β γ δ ε : Type}

/-- Two settings that differ in the text and its places.  Neither recovers from errors. -/
structure Pair where
  one : Setting
  other : Setting
  dialect : one.dialect = other.dialect
  limits : one.limits = other.limits
  finish : one.finish.word = other.finish.word
  ends : one.finish.lexeme.isFinish = true
  strict : one.recovers = false ∧ other.recovers = false
  /-- What is seen of the literals of a tree. -/
  view : Literal → Literal
  /-- Words that no text has. -/
  barred : Terminal → Bool
  /-- A region has the rest of its line for a title. -/
  region : barred Keyword.REGION = true
  /-- A literal with a type in front has its characters for a text. -/
  typed : barred Mark.hash = true ∨
    ∀ value text text' type, view ⟨value, text, some type⟩ = view ⟨value, text', some type⟩

/-- The same is ahead at both cursors. -/
structure Side (x : Pair) (c c' : Cursor) : Prop where
  rest : c.rest.map Token.word = c'.rest.map Token.word
  usage : c.usage = c'.usage
  declared : c.declared = c'.declared
  allowed : ∀ t ∈ c.rest, ∀ k, x.barred k = true → t.lexeme.is k = false

/-- Two runs end alike: with results that `f` does not tell apart, or with faults of one kind. -/
inductive EndAlike (x : Pair) (f : α → γ) :
    EStateM.Result Fault Cursor α → EStateM.Result Fault Cursor α → Prop
  | ok {a a' : α} {c c' : Cursor} (same : f a = f a') (side : Side x c c') :
    EndAlike x f (.ok a c) (.ok a' c')
  | error {e e' : Fault} {c c' : Cursor} (same : e.SameKind e') :
    EndAlike x f (.error e c) (.error e' c')

/-- Where the same is ahead, the rules end alike. -/
def Twin (x : Pair) (f : α → γ) (r r' : Rule α) : Prop :=
  ∀ c c', Side x c c' → EndAlike x f (r x.one c) (r' x.other c')

namespace Twin

variable {x : Pair} {r r' : Rule α} {f : α → γ} {g : β → δ} {k k' : α → Rule β}

theorem bind (hr : Twin x f r r') (hk : ∀ a a', f a = f a' → Twin x g (k a) (k' a')) :
    Twin x g (r >>= k) (r' >>= k') := by
  intro c c' side
  have first := hr c c' side
  rw [bind_apply, bind_apply]
  generalize r x.one c = run at first ⊢
  generalize r' x.other c' = run' at first ⊢
  cases first with
  | ok same side => exact hk _ _ same _ _ side
  | error same => exact .error same

/-- What is given on both sides is the same. -/
theorem same {k k' : α → Rule β} (hr : Twin x id r r') (hk : ∀ a, Twin x g (k a) (k' a)) :
    Twin x g (r >>= k) (r' >>= k') := by
  refine hr.bind ?_
  rintro a _ rfl
  exact hk a

/-- What is given does not matter. -/
theorem skip (hr : Twin x (fun _ => ()) r r') (hk : ∀ a a', Twin x g (k a) (k' a')) :
    Twin x g (r >>= k) (r' >>= k') :=
  hr.bind fun a a' _ => hk a a'

theorem pure {a a' : α} (h : f a = f a') : Twin x f (pure a) (pure a') :=
  fun _ _ side => .ok h side

theorem throw {e e' : Fault} (h : e.SameKind e') : Twin x f (throw e : Rule α) (throw e') :=
  fun _ _ _ => .error h

theorem ite {p : Prop} [Decidable p] {s s' : Rule α} (hr : Twin x f r r') (hs : Twin x f s s') :
    Twin x f (if p then r else s) (if p then r' else s') := by
  split
  · exact hr
  · exact hs

theorem map {h : α → β} (hr : Twin x f r r') (hg : ∀ a a', f a = f a' → g (h a) = g (h a')) :
    Twin x g (h <$> r) (h <$> r') := by
  rw [map_eq_pure_bind, map_eq_pure_bind]
  exact hr.bind fun a a' same => pure (hg a a' same)

theorem bracket {before after : Cursor → Cursor}
    (hb : ∀ c c', Side x c c' → Side x (before c) (before c'))
    (ha : ∀ c c', Side x c c' → Side x (after c) (after c')) (hr : Twin x f r r') :
    Twin x f (bracket before after r) (bracket before after r') := by
  intro c c' side
  have inner := hr _ _ (hb c c' side)
  rw [bracket_apply, bracket_apply]
  generalize r x.one (before c) = run at inner ⊢
  generalize r' x.other (before c') = run' at inner ⊢
  cases inner with
  | ok same side => exact .ok same (ha _ _ side)
  | error same => exact .error same

theorem nested (hr : Twin x f r r') : Twin x f (nested r) (nested r') := by
  refine bracket (fun c c' side => ?_) (fun c c' side => ?_) hr
  · exact ⟨side.rest, congrArg Usage.enter side.usage, side.declared, side.allowed⟩
  · exact ⟨side.rest, congrArg Usage.leave side.usage, side.declared, side.allowed⟩

theorem declaring (names : List String) (hr : Twin x f r r') :
    Twin x f (declaring names r) (declaring names r') := by
  refine bracket (fun c c' side => ?_) (fun c c' side => ?_) hr
  · exact ⟨side.rest, side.usage, congrArg (names :: ·) side.declared, side.allowed⟩
  · exact ⟨side.rest, side.usage, congrArg List.tail side.declared, side.allowed⟩

/-! ### What is ahead -/

theorem dialect : Twin x id dialect dialect :=
  fun _ _ side => .ok x.dialect side

theorem limits : Twin x id limits limits :=
  fun _ _ side => .ok x.limits side

theorem passes : Twin x id passes passes :=
  fun _ _ side => .ok (congrArg Limits.maxIterations x.limits) side

theorem lastStop : Twin x (fun _ => ()) lastStop lastStop :=
  fun _ _ side => .ok rfl side

theorem sourceText : Twin x (fun _ => ()) sourceText sourceText :=
  fun _ _ side => .ok rfl side

theorem tokensLeft : Twin x (List.map Token.word) tokensLeft tokensLeft :=
  fun _ _ side => .ok side.rest side

theorem isDeclared (name : String) : Twin x id (isDeclared name) (isDeclared name) :=
  fun _ _ side => .ok
    (congrArg (fun ds : List (List String) => ds.any (·.contains name)) side.declared) side

theorem getD_word {ts ts' : List Token} {t t' : Token} (h : ts.map Token.word = ts'.map Token.word)
    (ht : t.word = t'.word) (n : Nat) : (ts.getD n t).word = (ts'.getD n t').word := by
  have get := congrArg (·.getD n t.word) h
  rw [List.getD_map, ht, List.getD_map] at get
  exact get

theorem peekAt (n : Nat) : Twin x Token.word (peekAt n) (peekAt n) :=
  fun _ _ side => .ok (getD_word side.rest x.finish n) side

theorem peek : Twin x Token.word peek peek :=
  peekAt 0

/-- A lexeme ahead is none of the words that no text has. -/
theorem lexemeAt {k k' : Lexeme → Rule β} (n : Nat)
    (hk : ∀ l, (∀ w, x.barred w = true → l.is w = false) → Twin x g (k l) (k' l)) :
    Twin x g (lexemeAt n >>= k) (lexemeAt n >>= k') := by
  intro c c' side
  have same : (c.rest.getD n x.one.finish).lexeme = (c'.rest.getD n x.other.finish).lexeme :=
    congrArg Word.lexeme (getD_word side.rest x.finish n)
  show EndAlike x g (k (c.rest.getD n x.one.finish).lexeme x.one c)
    (k' (c'.rest.getD n x.other.finish).lexeme x.other c')
  rw [← same]
  refine hk _ (fun w barred => ?_) c c' side
  rw [List.getD_eq_getElem?_getD]
  cases ahead : c.rest[n]? with
  | some t => exact side.allowed t (List.mem_of_getElem? ahead) w barred
  | none =>
    -- Past the last token the lexeme is the end of the text, which is no word at all.
    have ends := x.ends
    rw [Option.getD_none]
    cases h : x.one.finish.lexeme with
    | finish => rfl
    | _ =>
      rw [h] at ends
      cases ends

theorem lexeme {k k' : Lexeme → Rule β}
    (hk : ∀ l, (∀ w, x.barred w = true → l.is w = false) → Twin x g (k l) (k' l)) :
    Twin x g (lexeme >>= k) (lexeme >>= k') :=
  lexemeAt 0 hk

theorem sees (t : Terminal) : Twin x id (sees t) (sees t) :=
  lexeme fun _ _ => pure rfl

theorem atEnd : Twin x id atEnd atEnd :=
  lexeme fun _ _ => pure rfl

theorem advance : Twin x Token.word advance advance := by
  rintro ⟨rest, i, stop, ps, u, ds, es⟩ ⟨rest', i', stop', ps', u', ds', es'⟩ ⟨hrest, hu, hd, hallowed⟩
  cases rest with
  | nil =>
    cases rest' with
    | nil => exact .ok x.finish ⟨rfl, hu, hd, hallowed⟩
    | cons _ _ => cases hrest
  | cons t ts =>
    cases rest' with
    | nil => cases hrest
    | cons t' ts' =>
      obtain ⟨first, others⟩ := List.cons.inj hrest
      exact .ok first ⟨others, hu, hd, fun t ht => hallowed t (.tail _ ht)⟩

theorem accept (t : Terminal) : Twin x id (accept t) (accept t) := by
  refine (sees t).same fun b => ite ?_ (pure rfl)
  exact advance.bind fun _ _ _ => pure rfl

/-! ### Errors -/

theorem fail {e e' : SyntaxError} (h : e.kind = e'.kind) :
    Twin x f (Grammar.fail e : Rule α) (Grammar.fail e') :=
  throw (.grammar h)

/-- The kind of an error about a token depends on the lexeme only. -/
theorem unexpectedToken_kind {t t' : Token} (h : t.word = t'.word) (expected expected' : Option String) :
    (unexpectedToken t expected).kind = (unexpectedToken t' expected').kind := by
  obtain ⟨span, rfl⟩ := Token.elsewhere h
  obtain ⟨l, text, _⟩ := t
  unfold unexpectedToken
  cases l with
  | malformed why => cases why <;> rfl
  | _ => rfl

theorem unexpected (expected : String) :
    Twin x SyntaxError.kind (unexpected expected) (unexpected expected) :=
  peek.bind fun _ _ same => pure (unexpectedToken_kind same _ _)

theorem failExpecting (expected : String) :
    Twin x f (failExpecting expected : Rule α) (failExpecting expected) :=
  (unexpected expected).bind fun _ _ same => fail same

theorem failInvalid (kind : SyntaxError.Kind) :
    Twin x f (failInvalid kind : Rule α) (failInvalid kind) := by
  refine peek.bind fun t t' same => ?_
  obtain ⟨span, rfl⟩ := Token.elsewhere same
  dsimp only
  split
  all_goals first
    | exact fail (unexpectedToken_kind same _ _)
    | exact fail rfl

theorem expect (t : Terminal) : Twin x Token.word (expect t) (expect t) :=
  (sees t).same fun _ => ite advance (failExpecting _)

theorem expectClosing (t : Terminal) (opener opener' : Token) (kind : SyntaxError.Kind) :
    Twin x id (expectClosing t opener kind) (expectClosing t opener' kind) := by
  refine (sees t).same fun b => ite (advance.bind fun _ _ _ => pure rfl) ?_
  exact atEnd.same fun b => ite (fail rfl) (failExpecting _)

theorem expectSemicolon : Twin x id expectSemicolon expectSemicolon := by
  refine peek.bind fun t t' same => ?_
  obtain ⟨span, rfl⟩ := Token.elsewhere same
  dsimp only
  split
  · exact advance.bind fun _ _ _ => pure rfl
  · exact failExpecting _
  · exact failExpecting _
  · exact lastStop.skip fun _ _ => fail rfl

theorem expectName (expected : String) :
    Twin x Token.word (expectName expected) (expectName expected) := by
  refine lexeme fun l _ => ?_
  split
  · exact advance
  · exact failExpecting _

theorem expectAnyName (expected : String) :
    Twin x Token.word (expectAnyName expected) (expectAnyName expected) := by
  refine lexeme fun l _ => ?_
  split
  · exact advance
  · exact dialect.same fun d => ite advance (failExpecting _)
  · exact failExpecting _

/-! ### Bounds -/

theorem failLimit {e e' : LimitError} (h : e.kind = e'.kind) :
    Twin x f (Grammar.failLimit e : Rule α) (Grammar.failLimit e') :=
  throw (.limit h)

theorem checkLimit (kind : LimitKind) (value : Nat) (span span' : Span) :
    Twin x id (checkLimit kind value span) (checkLimit kind value span') := by
  refine limits.same fun l => ?_
  unfold Limits.check
  by_cases within : value ≤ l.bound kind
  · rw [if_pos within, if_pos within]
    exact pure rfl
  · rw [if_neg within, if_neg within]
    exact failLimit rfl

theorem checkSize (size : Nat) (span span' : Span) :
    Twin x id (checkSize size span) (checkSize size span') :=
  checkLimit .collectionSize size span span'

theorem tooManyPasses : Twin x f (tooManyPasses : Rule α) tooManyPasses :=
  limits.same fun _ => peek.bind fun _ _ _ => failLimit rfl

theorem tooDeep : Twin x f (tooDeep : Rule α) tooDeep :=
  fun _ _ _ => .error (.limit rfl)

theorem spanFrom (start start' : Span) :
    Twin x (fun _ => ()) (spanFrom start) (spanFrom start') :=
  lastStop.skip fun _ _ => pure rfl

theorem recordNode (span span' : Span) : Twin x id (recordNode span) (recordNode span') := by
  intro c c' side
  have counted : Side x { c with usage := c.usage.addNode } { c' with usage := c'.usage.addNode } :=
    ⟨side.rest, congrArg Usage.addNode side.usage, side.declared, side.allowed⟩
  have same := checkLimit .nodes c.usage.addNode.nodes span span' _ _ counted
  show EndAlike x id
    (Grammar.checkLimit .nodes c.usage.addNode.nodes span x.one { c with usage := c.usage.addNode })
    (Grammar.checkLimit .nodes c'.usage.addNode.nodes span' x.other
      { c' with usage := c'.usage.addNode })
  -- The count is the same on both sides, and so is what is made of it.
  rw [← side.usage] at same ⊢
  exact same

/-- A node is built wherever it stands. -/
theorem node {start start' : Span} {build build' : Span → α}
    (h : ∀ s s', f (build s) = f (build' s')) :
    Twin x f (node start build) (node start' build') :=
  (spanFrom start start').skip fun s s' => (recordNode s s').same fun _ => pure (h s s')

/-! ### Loops -/

theorem length_eq_of_map {as bs : List α} (h : as.map f = bs.map f) : as.length = bs.length := by
  rw [← List.length_map f, h, List.length_map]

theorem repeating {look look' : α → Rule (β ⊕ ε)} {step step' : α → ε → Rule (β ⊕ α)}
    (hlook : ∀ a a', f a = f a' → Twin x (Sum.map g id) (look a) (look' a'))
    (hstep : ∀ a a' e, f a = f a' → Twin x (Sum.map g f) (step a e) (step' a' e)) (n : Nat)
    {a a' : α} (h : f a = f a') :
    Twin x g (repeating look step n a) (repeating look' step' n a') := by
  -- A pass ends the loop on both sides or on neither, since `Sum.map` keeps the side of a sum.
  induction n generalizing a a' with
  | zero =>
    unfold Grammar.repeating
    refine (hlook a a' h).bind ?_
    rintro (b | e) (b' | e') same
    · exact pure (Sum.inl.inj same)
    · cases same
    · cases same
    · exact tooManyPasses
  | succ n ih =>
    unfold Grammar.repeating
    refine (hlook a a' h).bind ?_
    rintro (b | e) (b' | e') same
    · exact pure (Sum.inl.inj same)
    · cases same
    · cases same
    · obtain rfl : e = e' := Sum.inr.inj same
      refine (hstep a a' e h).bind ?_
      rintro (b | d) (b' | d') same
      · exact pure (Sum.inl.inj same)
      · cases same
      · cases same
      · exact ih (Sum.inr.inj same)

theorem many {more more' : Rule Bool} {item item' : Nat → Rule (List α)}
    (hmore : Twin x id more more') (hitem : ∀ size, Twin x (List.map f) (item size) (item' size))
    (n size : Nat) : Twin x (List.map f) (many more item n size) (many more' item' n size) := by
  induction n generalizing size with
  | zero =>
    unfold Grammar.many
    exact hmore.same fun b => ite tooManyPasses (pure rfl)
  | succ n ih =>
    unfold Grammar.many
    refine hmore.same fun b => ite ?_ (pure rfl)
    refine (hitem size).bind fun xs xs' same => ?_
    -- Lists of one shape are of one length, so the size is counted alike.
    rw [← length_eq_of_map same]
    refine (ih _).bind fun ys ys' others => pure ?_
    rw [List.map_append, List.map_append, same, others]

theorem listed {more more' : Rule Bool} {item item' : Rule α} {spanOf : α → Span}
    (hmore : Twin x id more more') (hitem : Twin x f item item') (n size : Nat) :
    Twin x (List.map f) (listed more item spanOf n size) (listed more' item' spanOf n size) := by
  induction n generalizing size with
  | zero =>
    unfold Grammar.listed
    exact hmore.same fun b => ite tooManyPasses (pure rfl)
  | succ n ih =>
    unfold Grammar.listed
    refine hmore.same fun b => ite ?_ (pure rfl)
    refine hitem.bind fun a a' same => (checkSize _ _ _).same fun _ => ?_
    refine (accept _).same fun b => ite ?_ ?_
    · refine (ih _).bind fun as as' others => pure ?_
      rw [List.map_cons, List.map_cons, same, others]
    · exact pure (congrArg (fun c => [c]) same)

theorem commaTail {item item' : Rule α} {spanOf : α → Span} (hitem : Twin x f item item')
    (room : Nat) : Twin x (List.map f) (commaTail item spanOf room) (commaTail item' spanOf room) := by
  induction room with
  | zero =>
    unfold Grammar.commaTail
    refine (accept _).same fun b => ite ?_ (pure rfl)
    exact hitem.bind fun _ _ _ => limits.same fun _ => failLimit rfl
  | succ room ih =>
    unfold Grammar.commaTail
    refine (accept _).same fun b => ite ?_ (pure rfl)
    refine hitem.bind fun a a' same => ih.bind fun as as' others => pure ?_
    rw [List.map_cons, List.map_cons, same, others]

theorem commaList {item item' : Rule α} {spanOf : α → Span} (hitem : Twin x f item item') :
    Twin x (List.map f) (commaList item spanOf) (commaList item' spanOf) := by
  refine hitem.bind fun a a' same => limits.same fun l => ?_
  refine (commaTail hitem _).bind fun as as' others => pure ?_
  rw [List.map_cons, List.map_cons, same, others]

/-- An error is not recovered from. -/
theorem recovering {stops : Lexeme → Bool} {pastSemicolon : Bool} (hr : Twin x f r r') :
    Twin x (Option.map f) (recovering stops pastSemicolon r)
      (recovering stops pastSemicolon r') := by
  intro c c' side
  have inner := hr c c' side
  unfold Grammar.recovering
  generalize r x.one c = run at inner ⊢
  generalize r' x.other c' = run' at inner ⊢
  cases inner with
  | ok same side => exact .ok (congrArg some same) side
  | error same =>
    -- Only an error of the grammar could be recovered from, and neither side does.
    rw [x.strict.1, x.strict.2]
    cases same with
    | grammar kind => exact .error (.grammar kind)
    | limit kind => exact .error (.limit kind)
    | unreadableDigits => exact .error .unreadableDigits
    | infiniteDuration => exact .error .infiniteDuration
    | endless => exact .error .endless

/-- A part that may be left out. -/
theorem optional {p : Prop} [Decidable p] {k k' : Option α → Rule β} (hr : Twin x f r r')
    (hk : ∀ o o', Option.map f o = Option.map f o' → Twin x g (k o) (k' o')) :
    Twin x g (if p then some <$> r >>= k else Pure.pure none >>= k)
      (if p then some <$> r' >>= k' else Pure.pure none >>= k') := by
  refine ite ?_ ?_
  · refine bind (f := Option.map f) (hr.map (h := some) fun a a' same => ?_) hk
    exact congrArg some same
  · exact bind (f := Option.map f) (pure rfl) hk

end Twin

end Grammar

end Plc

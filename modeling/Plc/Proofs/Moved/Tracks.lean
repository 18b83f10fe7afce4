/-
A stretch of tokens read in two texts.

The same tokens stand in two texts, in the one further on than in the other, and different tokens come
behind them.  A rule that reads in the one text and comes to an end inside the stretch reads in the
other text as well, and gives the same, further on; unless a limit is passed there, since more has
been read before.

A rule may look at tokens behind the stretch before it ends inside.  Where it does, the stretch ends
with a token that closes a statement, and what comes behind that is of no account.

* `Transplant` — two texts with a common stretch;
* `Beside` — the readings of both texts stand at the same place of the stretch;
* `Tracks` — what a rule gives on the one side, another gives on the other side;
* `Idle` — the same of rules that pass over no token;
* `Tracks.bind`, `Tracks.last` — rules in a row; a rule that may end with the stretch comes last;
* `Tracks.repeating`, `Tracks.many`, `Tracks.listed`, `Tracks.commaList` — loops.
-/
import Mathlib.Data.List.GetD
import Plc.Proofs.Grammar.Ahead
import Plc.Proofs.Grammar.Course
import Plc.Proofs.Moved.Tree
import Plc.Grammar.Stmt

namespace Plc.Grammar

variable {α β γ δ ε : Type}

/-- The lexeme closes a statement: a semicolon, the colon of a label, or the last word of a
construct. -/
def closesStatement (l : Lexeme) : Bool :=
  l.is Mark.semicolon || l.is Mark.colon || l.isAmong endWords

/-- Two texts with a common stretch of tokens.  Neither reading recovers from errors. -/
structure Transplant where
  one : Setting
  other : Setting
  /-- In the other text the stretch is so many characters further on. -/
  shift : Nat
  /-- The offsets between which the stretch stands in the one text. -/
  low : Nat
  high : Nat
  /-- The tokens behind the stretch, in the one text and in the other. -/
  tail : List Token
  tail' : List Token
  dialect : one.dialect = other.dialect
  strict : one.recovers = false ∧ other.recovers = false
  ends : one.finish.lexeme.isFinish = true
  slice : ∀ i j, low ≤ i → j ≤ high →
    Text.slice other.source (i + shift) (j + shift) = Text.slice one.source i j
  line : ∀ i, low ≤ i → i ≤ high → Text.lineStop one.source i ≤ high ∧
    Text.lineStop other.source (i + shift) = Text.lineStop one.source i + shift
  /-- No semicolon comes right behind the stretch. -/
  bare : (tail.getD 0 one.finish).lexeme.is Mark.semicolon = false ∧
    (tail'.getD 0 other.finish).lexeme.is Mark.semicolon = false

/-- The end of the text closes no statement. -/
theorem Transplant.finish_open (x : Transplant) : closesStatement x.one.finish.lexeme = false := by
  have finish := x.ends
  cases h : x.one.finish.lexeme with
  | finish => rfl
  | _ =>
    rw [h] at finish
    cases finish

/-- The token stands where the stretch does. -/
def Transplant.Holds (x : Transplant) (t : Token) : Prop :=
  x.low ≤ t.span.start ∧ t.span.stop ≤ x.high

/-- The readings stand at the same place of the stretch.  Where a reading begins nothing has been
passed over yet, and the last token read is of no account. -/
structure Beside (x : Transplant) (fresh : Bool) (c c' : Cursor) : Prop where
  stretch : ∃ ts, c.rest = ts ++ x.tail ∧ c'.rest = ts.map (Token.moved x.shift) ++ x.tail' ∧
    (∀ t ∈ ts, x.Holds t) ∧ ∀ t ∈ ts.getLast?, closesStatement t.lexeme = true
  declared : ∀ name, c'.declared.any (·.contains name) = c.declared.any (·.contains name)
  place : fresh = false → c'.lastStop = c.lastStop + x.shift ∧ c.lastStop ≤ x.high

/-- The run ends as told, or a limit ends it. -/
inductive UnlessLimited (P : α → Cursor → Prop) : EStateM.Result Fault Cursor α → Prop
  | ok {a : α} {c : Cursor} (h : P a c) : UnlessLimited P (.ok a c)
  | limit (e : LimitError) (c : Cursor) : UnlessLimited P (.error (.limit e) c)

namespace UnlessLimited

variable {P Q : α → Cursor → Prop} {run : EStateM.Result Fault Cursor α}

theorem mono (h : UnlessLimited P run) (weaker : ∀ a c, P a c → Q a c) : UnlessLimited Q run := by
  cases h with
  | ok h => exact .ok (weaker _ _ h)
  | limit e c => exact .limit e c

theorem bind {Q : β → Cursor → Prop} {r : Rule α} {f : α → Rule β} {s : Setting} {c : Cursor}
    (h : UnlessLimited P (r s c)) (hf : ∀ a c', P a c' → UnlessLimited Q (f a s c')) :
    UnlessLimited Q ((r >>= f) s c) := by
  rw [bind_apply]
  generalize r s c = run at h
  cases h with
  | ok h => exact hf _ _ h
  | limit e c => exact .limit e c

end UnlessLimited

/-- So far has been read between two places; the last token read closes a statement, if it must. -/
def ReadsOver (closes : Bool) (c d : Cursor) : Prop :=
  ∃ front, c.rest = front ++ d.rest ∧
    (closes = true → ∃ t ∈ front.getLast?, closesStatement t.lexeme = true)

namespace ReadsOver

variable {closes : Bool} {c d m : Cursor}

theorem same (h : d.rest = c.rest) : ReadsOver false c d :=
  ⟨[], h.symm, nofun⟩

theorem trans (first : ReadsOver false c m) (later : ReadsOver closes m d) : ReadsOver closes c d := by
  obtain ⟨front, before, -⟩ := first
  obtain ⟨back, after, last⟩ := later
  refine ⟨front ++ back, by rw [before, after, List.append_assoc], fun must => ?_⟩
  obtain ⟨t, ht, closing⟩ := last must
  refine ⟨t, ?_, closing⟩
  rw [Option.mem_def] at ht ⊢
  rw [List.getLast?_append, ht, Option.some_or]

theorem weaken (h : ReadsOver closes c d) : ReadsOver false c d := by
  obtain ⟨front, before, -⟩ := h
  exact ⟨front, before, nofun⟩

/-- A rule that may end with the stretch has passed over a token. -/
theorem length_le (h : ReadsOver closes c d) : d.rest.length + closes.toNat ≤ c.rest.length := by
  obtain ⟨front, before, last⟩ := h
  rw [before, List.length_append]
  cases closes with
  | false => exact Nat.le_add_left ..
  | true =>
    obtain ⟨t, ht, -⟩ := last rfl
    have some_token := List.length_pos_iff.2 (List.ne_nil_of_mem (List.mem_of_getLast? ht))
    show d.rest.length + 1 ≤ _
    omega

/-- A token of a stretch was left where a rule began that ended in the stretch. -/
theorem more (h : ReadsOver closes c d) {n : Nat} (left : n + (!closes).toNat ≤ d.rest.length) :
    n < c.rest.length := by
  have shorter := h.length_le
  cases closes with
  | false => exact Nat.lt_of_lt_of_le (Nat.lt_succ_self _) (Nat.le_trans left shorter)
  | true => exact Nat.lt_of_le_of_lt left shorter

end ReadsOver

/-- From two places: what the rule gives on the one side, the other gives on the other side, `f`
further on.  The first rule must end before the last token of the stretch is read, or else end with
a token that closes a statement; then this token may be the last of the stretch. -/
structure TracksAt (x : Transplant) (fresh closes : Bool) (f : α → β) (c c' : Cursor) (r : Rule α)
    (r' : Rule β) : Prop where
  passes : ∀ a d, r x.one c = .ok a d → ReadsOver closes c d
  follows : ∀ a d, Beside x fresh c c' → r x.one c = .ok a d →
    x.tail.length + (!closes).toNat ≤ d.rest.length →
    UnlessLimited (fun b d' => b = f a ∧ Beside x false d d') (r' x.other c')

/-- What the rule gives on the one side, the other gives on the other side. -/
def Tracks (x : Transplant) (fresh closes : Bool) (f : α → β) (r : Rule α) (r' : Rule β) : Prop :=
  ∀ c c', TracksAt x fresh closes f c c' r r'

/-- Neither rule passes over a token, and what the first gives the other gives. -/
def Idle (x : Transplant) (f : α → β) (r : Rule α) (r' : Rule β) : Prop :=
  ∀ c c' a d, r x.one c = .ok a d → d.rest = c.rest ∧ (Beside x false c c' →
    UnlessLimited (fun b d' => b = f a ∧ Beside x false d d') (r' x.other c'))

/-- The rule gives nothing. -/
def Fails (r : Rule α) : Prop :=
  Triple (fun _ _ => True) r fun _ _ _ => False

variable {x : Transplant} {fresh closes : Bool} {c c' : Cursor} {r : Rule α} {r' : Rule β} {f : α → β}
  {g : γ → δ} {k : α → Rule γ} {k' : β → Rule δ}

/-- Without recovery an error is not recovered from. -/
theorem recovering_eq_ok {stops : Lexeme → Bool} {pastSemicolon : Bool} {r : Rule α} {s : Setting}
    {c d : Cursor} {o : Option α} (strict : s.recovers = false)
    (run : recovering stops pastSemicolon r s c = .ok o d) : ∃ a, o = some a ∧ r s c = .ok a d := by
  unfold recovering at run
  rw [strict] at run
  cases hrun : r s c with
  | ok a m =>
    rw [hrun] at run
    cases run
    exact ⟨a, rfl, rfl⟩
  | error e m =>
    rw [hrun] at run
    cases e <;> cases run

/-- A loop ends where nothing more is to be read, or makes a pass and goes on. -/
theorem many_eq_ok {more : Rule Bool} {item : Nat → Rule (List α)} {value : Setting → Cursor → Bool}
    (hmore : ∀ s c, more s c = .ok (value s c) c) {n size : Nat} {s : Setting} {c d : Cursor}
    {as : List α} (run : many more item n size s c = .ok as d) :
    value s c = false ∧ as = [] ∧ d = c ∨ value s c = true ∧ ∃ n' xs ys m, n' < n ∧
      item size s c = .ok xs m ∧ many more item n' (size + xs.length) s m = .ok ys d ∧
      as = xs ++ ys := by
  cases hv : value s c with
  | false =>
    rw [many_done (hv ▸ hmore s c)] at run
    cases run
    exact .inl ⟨rfl, rfl, rfl⟩
  | true =>
    cases n with
    | zero =>
      obtain ⟨e, limit⟩ : ∃ e, many more item 0 size s c = .error (.limit e) c :=
        many_zero (hv ▸ hmore s c)
      rw [limit] at run
      cases run
    | succ n =>
      rw [many_succ (hv ▸ hmore s c)] at run
      obtain ⟨xs, m, first, run⟩ := bind_eq_ok_iff.1 run
      obtain ⟨ys, m', rest, last⟩ := bind_eq_ok_iff.1 run
      cases last
      exact .inr ⟨rfl, n, xs, ys, m, Nat.lt_succ_self n, first, rest, rfl⟩

/-- A loop that gives one item made one pass, if each pass gives one. -/
theorem many_eq_one {more : Rule Bool} {item : Nat → Rule (List α)} {value : Setting → Cursor → Bool}
    (hmore : ∀ s c, more s c = .ok (value s c) c) {s : Setting}
    (single : ∀ size c xs d, item size s c = .ok xs d → ∃ a, xs = [a]) {n size : Nat} {c d : Cursor}
    {a : α} (run : many more item n size s c = .ok [a] d) :
    value s c = true ∧ item size s c = .ok [a] d ∧ value s d = false := by
  obtain ⟨-, none, -⟩ | ⟨begins, n, xs, ys, m, -, first, rest, all⟩ := many_eq_ok hmore run
  · cases none
  obtain ⟨b, rfl⟩ := single _ _ _ _ first
  obtain ⟨rfl, rfl⟩ := List.cons.inj all
  obtain ⟨ends, -, rfl⟩ | ⟨-, _, zs, _, _, -, second, -, all⟩ := many_eq_ok hmore rest
  · exact ⟨begins, first, ends⟩
  · obtain ⟨b, rfl⟩ := single _ _ _ _ second
    cases all

namespace Beside

theorem any (h : Beside x fresh c c') : Beside x true c c' :=
  ⟨h.stretch, h.declared, nofun⟩

theorem of_level (h : Beside x false c c') : Beside x fresh c c' :=
  ⟨h.stretch, h.declared, fun _ => h.place rfl⟩

/-- Where more than what comes behind the stretch is left, the next token is one of the stretch. -/
theorem next (h : Beside x fresh c c') (more : x.tail.length < c.rest.length) :
    ∃ t ts, c.rest = t :: ts ++ x.tail ∧
      c'.rest = t.moved x.shift :: ts.map (Token.moved x.shift) ++ x.tail' ∧
      (∀ u ∈ t :: ts, x.Holds u) ∧ ∀ u ∈ (t :: ts).getLast?, closesStatement u.lexeme = true := by
  obtain ⟨⟨ts, before, after, holds, closing⟩, -, -⟩ := h
  cases ts with
  | nil =>
    rw [before] at more
    exact absurd more (Nat.lt_irrefl _)
  | cons t ts => exact ⟨t, ts, before, after, holds, closing⟩

/-- Otherwise the stretch is at its end on both sides. -/
theorem behind (h : Beside x fresh c c') (left : ¬ x.tail.length < c.rest.length) :
    c.rest = x.tail ∧ c'.rest = x.tail' := by
  obtain ⟨⟨ts, before, after, -⟩, -⟩ := h
  obtain rfl : ts = [] := by
    rw [before, List.length_append] at left
    exact List.eq_nil_of_length_eq_zero (by omega)
  exact ⟨before, after⟩

/-- The next token of the stretch is passed over on both sides. -/
theorem past (h : Beside x fresh c c') (more : x.tail.length < c.rest.length) :
    ∃ t rest rest', c.rest = t :: rest ∧ c'.rest = t.moved x.shift :: rest' ∧ x.Holds t ∧
      Beside x false (Triple.past c t rest) (Triple.past c' (t.moved x.shift) rest') := by
  obtain ⟨t, ts, before, after, holds, closing⟩ := h.next more
  refine ⟨t, _, _, before, after, holds t List.mem_cons_self,
    ⟨ts, rfl, rfl, fun u hu => holds u (.tail _ hu), fun u hu => closing u ?_⟩, h.declared,
    fun _ => ⟨rfl, (holds t List.mem_cons_self).2⟩⟩
  cases ts with
  | nil => cases hu
  | cons v vs => exact hu

theorem ahead_zero (h : Beside x fresh c c') (more : x.tail.length < c.rest.length) :
    x.other.ahead c' 0 = (x.one.ahead c 0).moved x.shift := by
  obtain ⟨t, ts, before, after, -⟩ := h.next more
  unfold Setting.ahead
  rw [before, after]
  rfl

/-- The same is ahead on both sides, as long as nothing before it closes a statement. -/
theorem ahead_lexeme (h : Beside x fresh c c') (more : x.tail.length < c.rest.length) {n : Nat}
    (clear : ∀ m < n, closesStatement (x.one.ahead c m).lexeme = false) :
    (x.other.ahead c' n).lexeme = (x.one.ahead c n).lexeme := by
  obtain ⟨t, ts, before, after, -, closing⟩ := h.next more
  unfold Setting.ahead at clear ⊢
  rw [before] at clear ⊢
  rw [after]
  by_cases inside : n < (t :: ts).length
  · have inside' : n < ((t :: ts).map (Token.moved x.shift)).length := by rwa [List.length_map]
    rw [← List.map_cons, List.getD_append _ _ _ _ inside', List.getD_append _ _ _ _ inside,
      List.getD_eq_getElem _ _ inside', List.getElem_map, List.getD_eq_getElem _ _ inside]
    rfl
  · -- The last token of the stretch closes a statement and comes before.
    have last := closing _ (List.getLast?_eq_some_getLast (List.cons_ne_nil t ts))
    have before := clear ts.length (Nat.lt_of_lt_of_le (Nat.lt_succ_self _) (Nat.not_lt.1 inside))
    rw [List.getD_append _ _ _ _ (Nat.lt_succ_self _), List.getD_eq_getElem _ _ (Nat.lt_succ_self _)]
      at before
    rw [List.getLast_eq_getElem] at last
    exact absurd last (Bool.eq_false_iff.1 before)

end Beside

/-! ### Rules that pass over no token -/

namespace Idle

theorem pure {a : α} : Idle x f (pure a) (pure (f a)) := by
  rintro c c' _ _ ⟨⟩
  exact ⟨rfl, fun side => .ok ⟨rfl, side⟩⟩

theorem bind (hr : Idle x f r r') (hk : ∀ a, Idle x g (k a) (k' (f a))) :
    Idle x g (r >>= k) (r' >>= k') := by
  intro c c' a d run
  obtain ⟨a₁, m, first, later⟩ := bind_eq_ok_iff.1 run
  obtain ⟨before, onward⟩ := hr c c' a₁ m first
  refine ⟨?_, fun side => (onward side).bind ?_⟩
  · rw [(hk a₁ m c' a d later).1, before]
  · rintro b m' ⟨rfl, side⟩
    exact (hk a₁ m m' a d later).2 side

theorem checkLimit (kind : LimitKind) (value value' : Nat) (span span' : Span) :
    Idle x id (checkLimit kind value span) (checkLimit kind value' span') := by
  intro c c' a d run
  obtain ⟨-, rfl⟩ := checkLimit_eq_ok run
  refine ⟨rfl, fun side => ?_⟩
  rw [checkLimit_apply]
  cases x.other.limits.check kind value' span' with
  | ok _ => exact .ok ⟨rfl, side⟩
  | error e => exact .limit e _

theorem checkSize (size size' : Nat) (span span' : Span) :
    Idle x id (checkSize size span) (checkSize size' span') :=
  checkLimit .collectionSize size size' span span'

theorem spanFrom (start : Span) :
    Idle x (Span.moved x.shift) (spanFrom start) (spanFrom (start.moved x.shift)) := by
  rintro c c' _ _ ⟨⟩
  refine ⟨rfl, fun side => ?_⟩
  refine UnlessLimited.ok (c := c') ⟨?_, side⟩
  simp only [Span.moved, (side.place rfl).1, Nat.add_max_add_right]

theorem recordNode (span span' : Span) : Idle x id (recordNode span) (recordNode span') := by
  intro c c' a d run
  have counted (c : Cursor) (s : Setting) (span : Span) : Grammar.recordNode span s c =
      Grammar.checkLimit .nodes c.usage.addNode.nodes span s { c with usage := c.usage.addNode } :=
    rfl
  rw [counted] at run
  obtain ⟨same, onward⟩ := checkLimit (x := x) .nodes c.usage.addNode.nodes
    c'.usage.addNode.nodes span span' _ { c' with usage := c'.usage.addNode } a d run
  exact ⟨same, fun side => onward ⟨side.stretch, side.declared, side.place⟩⟩

/-- A node is built where it stands. -/
theorem node {start start' : Span} {build : Span → α} {build' : Span → β}
    (hs : start' = start.moved x.shift) (hb : ∀ s, build' (s.moved x.shift) = f (build s)) :
    Idle x f (node start build) (node start' build') := by
  subst hs
  refine (spanFrom start).bind fun s => (recordNode s _).bind fun _ => ?_
  rw [hb]
  exact pure

/-- What a rule without tokens gives is tracked. -/
theorem tracks (h : Idle x f r r') : Tracks x false false f r r' :=
  fun c c' => ⟨fun a d run => .same (h c c' a d run).1, fun a d side run _ => (h c c' a d run).2 side⟩

end Idle

namespace TracksAt

theorem weaken {fresh' : Bool} (h : TracksAt x fresh closes f c c' r r')
    (place : fresh = false → fresh' = false) : TracksAt x fresh' false f c c' r r' where
  passes a d run := (h.passes a d run).weaken
  follows a d side run more :=
    h.follows a d ⟨side.stretch, side.declared, fun level => side.place (place level)⟩ run (by
      cases closes with
      | false => exact more
      | true => exact Nat.le_trans (Nat.le_succ _) more)

/-- A token of the stretch is left where a rule begins that ends inside. -/
theorem more (h : TracksAt x fresh closes f c c' r r') {a : α} {d : Cursor}
    (run : r x.one c = .ok a d) (left : x.tail.length + (!closes).toNat ≤ d.rest.length) :
    x.tail.length < c.rest.length :=
  (h.passes a d run).more left

/-- What is ahead is looked at first. -/
theorem lexemeAt {k : Lexeme → Rule γ} {k' : Lexeme → Rule δ} (n : Nat)
    (hk : ∀ l', ((∀ m < n, closesStatement (x.one.ahead c m).lexeme = false) →
        l' = (x.one.ahead c n).lexeme) →
      TracksAt x fresh closes g c c' (k (x.one.ahead c n).lexeme) (k' l')) :
    TracksAt x fresh closes g c c' (lexemeAt n >>= k) (lexemeAt n >>= k') where
  passes a d run := (hk _ fun _ => rfl).passes a d run
  follows a d side run left := by
    have more := (hk _ fun _ => rfl).more run left
    exact (hk (x.other.ahead c' n).lexeme fun clear => side.ahead_lexeme more clear).follows a d side
      run left

theorem peek {k : Token → Rule γ} {k' : Token → Rule δ}
    (hk : TracksAt x fresh closes g c c' (k (x.one.ahead c 0))
      (k' ((x.one.ahead c 0).moved x.shift))) :
    TracksAt x fresh closes g c c' (peek >>= k) (peek >>= k') where
  passes a d run := hk.passes a d run
  follows a d side run left := by
    have onward := hk.follows a d side run left
    rw [← side.ahead_zero (hk.more run left)] at onward
    exact onward

theorem sees (t : Terminal) {k : Bool → Rule γ} {k' : Bool → Rule δ}
    (hk : TracksAt x fresh closes g c c' (k ((x.one.ahead c 0).lexeme.is t))
      (k' ((x.one.ahead c 0).lexeme.is t))) :
    TracksAt x fresh closes g c c' (sees t >>= k) (sees t >>= k') where
  passes a d run := hk.passes a d run
  follows a d side run left := by
    have onward := hk.follows a d side run left
    rw [← side.ahead_lexeme (n := 0) (hk.more run left) nofun] at onward
    exact onward

theorem dialect {k : Dialect → Rule γ} {k' : Dialect → Rule δ}
    (hk : ∀ d, TracksAt x fresh closes g c c' (k d) (k' d)) :
    TracksAt x fresh closes g c c' (dialect >>= k) (dialect >>= k') where
  passes a d run := (hk x.one.dialect).passes a d run
  follows a d side run left := by
    have onward := (hk x.one.dialect).follows a d side run left
    rw [x.dialect] at onward
    exact onward

theorem ite {p : Prop} [Decidable p] {s : Rule α} {s' : Rule β}
    (hr : p → TracksAt x fresh closes f c c' r r') (hs : ¬p → TracksAt x fresh closes f c c' s s') :
    TracksAt x fresh closes f c c' (if p then r else s) (if p then r' else s') := by
  split
  · next h => exact hr h
  · next h => exact hs h

/-- The next token is passed over. -/
theorem advance (last : closes = true → closesStatement (x.one.ahead c 0).lexeme = true) :
    TracksAt x fresh closes (Token.moved x.shift) c c' advance advance := by
  cases hc : c.rest with
  | nil =>
    -- At the end of the text no token is passed over, and none of the stretch is left.
    have inside : closes = false := by
      refine Bool.eq_false_iff.2 fun must => ?_
      have closing := last must
      rw [Setting.ahead, hc, List.getD_nil, x.finish_open] at closing
      cases closing
    subst inside
    refine ⟨fun a d run => ?_, fun a d side run left => ?_⟩
    · rw [advance_nil hc] at run
      cases run
      exact .same rfl
    · rw [advance_nil hc] at run
      cases run
      rw [hc] at left
      exact absurd left (Nat.not_succ_le_zero _)
  | cons t rest =>
    have ahead : x.one.ahead c 0 = t := by rw [Setting.ahead, hc, List.getD_cons_zero]
    refine ⟨fun a d run => ?_, fun a d side run left => ?_⟩
    · rw [advance_cons hc] at run
      cases run
      exact ⟨[t], hc, fun must => ⟨t, rfl, ahead ▸ last must⟩⟩
    · rw [advance_cons hc] at run
      cases run
      have more : x.tail.length < c.rest.length := by
        rw [hc]
        exact Nat.lt_succ_of_le (Nat.le_trans (Nat.le_add_right ..) left)
      obtain ⟨u, us, rest', before, after, -, side⟩ := side.past more
      rw [hc] at before
      obtain ⟨rfl, rfl⟩ := List.cons.inj before
      rw [advance_cons after]
      exact .ok ⟨rfl, side⟩

/-- A rule without tokens comes last. -/
theorem last (hr : TracksAt x fresh closes f c c' r r') (hk : ∀ a, Idle x g (k a) (k' (f a))) :
    TracksAt x fresh closes g c c' (r >>= k) (r' >>= k') where
  passes a d run := by
    obtain ⟨a₁, m, first, later⟩ := bind_eq_ok_iff.1 run
    obtain ⟨front, before, last⟩ := hr.passes a₁ m first
    exact ⟨front, by rw [(hk a₁ m c' a d later).1, before], last⟩
  follows a d side run left := by
    obtain ⟨a₁, m, first, later⟩ := bind_eq_ok_iff.1 run
    rw [(hk a₁ m c' a d later).1] at left
    refine (hr.follows a₁ m side first left).bind ?_
    rintro b m' ⟨rfl, side⟩
    exact (hk a₁ m m' a d later).2 side

/-- One rule after another; the first ends inside the stretch. -/
theorem bind (hr : TracksAt x fresh false f c c' r r')
    (hk : ∀ a, Tracks x false closes g (k a) (k' (f a))) :
    TracksAt x fresh closes g c c' (r >>= k) (r' >>= k') where
  passes a d run := by
    obtain ⟨a₁, m, first, later⟩ := bind_eq_ok_iff.1 run
    exact (hr.passes a₁ m first).trans ((hk a₁ m c').passes a d later)
  follows a d side run left := by
    obtain ⟨a₁, m, first, later⟩ := bind_eq_ok_iff.1 run
    refine (hr.follows a₁ m side first ((hk a₁ m c').more later left)).bind ?_
    rintro b m' ⟨rfl, side⟩
    exact (hk a₁ m m').follows a d side later left

end TracksAt

namespace ReadsOver

/-- Every rule passes over some tokens. -/
theorem course : Course fun _ c d => ReadsOver false c d where
  trans := trans
  aside _ _ _ _ _ := same rfl
  count _ _ := same rfl
  advance _ c := by
    cases hc : c.rest with
    | nil =>
      rw [advance_nil hc]
      exact same rfl
    | cons t rest =>
      rw [advance_cons hc]
      exact ⟨[t], hc, nofun⟩
  take _ _ _ _ := same rfl
  note _ _ _ := same rfl

theorem of_leads {r : Rule α} (h : Leads (fun _ c d => ReadsOver false c d) r) {s : Setting}
    {c d : Cursor} {a : α} (run : r s c = .ok a d) : ReadsOver false c d := by
  have leads := h s c
  rwa [run] at leads

end ReadsOver

/-- A token is passed over, which stands in the stretch. -/
theorem TracksAt.advanceHeld {k : Token → Rule γ} {k' : Token → Rule δ}
    (passes : ∀ a d, (Grammar.advance >>= k) x.one c = .ok a d → ReadsOver closes c d)
    (hk : x.Holds (x.one.ahead c 0) → Tracks x false closes g (k (x.one.ahead c 0))
      (k' ((x.one.ahead c 0).moved x.shift))) :
    TracksAt x fresh closes g c c' (Grammar.advance >>= k) (Grammar.advance >>= k') where
  passes := passes
  follows a d side run left := by
    obtain ⟨t, rest, rest', before, after, holds, side⟩ := side.past ((passes a d run).more left)
    rw [Setting.ahead, before, List.getD_cons_zero] at hk
    rw [bind_apply, advance_cons before] at run
    rw [bind_apply, advance_cons after]
    exact (hk holds _ _).follows a d side run left

namespace Tracks

theorem weaken {fresh' : Bool} (h : Tracks x fresh closes f r r')
    (place : fresh = false → fresh' = false) : Tracks x fresh' false f r r' :=
  fun c c' => (h c c').weaken place

/-- A rule that may end with the stretch may end before. -/
theorem inside (h : Tracks x fresh closes f r r') : Tracks x fresh false f r r' :=
  h.weaken id

/-- A rule that may begin anywhere may begin inside the stretch. -/
theorem level (h : Tracks x true closes f r r') : Tracks x false false f r r' :=
  h.weaken nofun

theorem bind (hr : Tracks x fresh false f r r')
    (hk : ∀ a, Tracks x false closes g (k a) (k' (f a))) :
    Tracks x fresh closes g (r >>= k) (r' >>= k') :=
  fun c c' => (hr c c').bind hk

/-- A rule without tokens comes last. -/
theorem last (hr : Tracks x fresh closes f r r') (hk : ∀ a, Idle x g (k a) (k' (f a))) :
    Tracks x fresh closes g (r >>= k) (r' >>= k') :=
  fun c c' => (hr c c').last hk

theorem pure {a : α} : Tracks x false false f (pure a) (pure (f a)) :=
  Idle.pure.tracks

theorem ite {p : Prop} [Decidable p] {s : Rule α} {s' : Rule β}
    (hr : Tracks x fresh closes f r r') (hs : Tracks x fresh closes f s s') :
    Tracks x fresh closes f (if p then r else s) (if p then r' else s') :=
  fun c c' => .ite (fun _ => hr c c') fun _ => hs c c'

/-- A rule that gives nothing is followed by every other. -/
theorem fails (h : Fails r) : Tracks x fresh closes f r r' :=
  fun _ _ => ⟨fun _ _ run => (h trivial run).elim, fun _ _ _ run _ => (h trivial run).elim⟩

/-- A limit may be passed on the other side. -/
theorem limited {s : Rule β} (h : Tracks x fresh closes f r r')
    (limit : ∀ c', ∃ e d', s x.other c' = .error (.limit e) d') : Tracks x fresh closes f r s :=
  fun c c' => ⟨(h c c').passes, fun a d _ _ _ => by
    obtain ⟨e, d', run⟩ := limit c'
    rw [run]
    exact .limit e d'⟩

theorem map {h : α → γ} {h' : β → δ} (hr : Tracks x fresh closes f r r')
    (hg : ∀ a, h' (f a) = g (h a)) : Tracks x fresh closes g (h <$> r) (h' <$> r') := by
  rw [map_eq_pure_bind, map_eq_pure_bind]
  refine hr.last fun a => ?_
  rw [hg]
  exact .pure

/-- A node is built where it stands. -/
theorem node {start start' : Span} {build : Span → α} {build' : Span → β}
    (hs : start' = start.moved x.shift) (hb : ∀ s, build' (s.moved x.shift) = f (build s)) :
    Tracks x false false f (node start build) (node start' build') :=
  (Idle.node hs hb).tracks

/-! ### What is ahead -/

/-- What is looked up without passing over a token, and is the same or moved. -/
theorem look {k : ε → Rule γ} {ε' : Type} {k' : ε' → Rule δ} {r : Rule ε} {r' : Rule ε'}
    {v : Setting → Cursor → ε} {v' : Setting → Cursor → ε'} {h : ε → ε'}
    (hr : ∀ s c, r s c = .ok (v s c) c) (hr' : ∀ s c, r' s c = .ok (v' s c) c)
    (hv : ∀ c c', Beside x fresh c c' → x.tail.length < c.rest.length →
      v' x.other c' = h (v x.one c)) (hk : ∀ a, Tracks x fresh closes g (k a) (k' (h a))) :
    Tracks x fresh closes g (r >>= k) (r' >>= k') := by
  intro c c'
  have first : (r >>= k) x.one c = k (v x.one c) x.one c := by rw [bind_apply, hr]
  have second : (r' >>= k') x.other c' = k' (v' x.other c') x.other c' := by rw [bind_apply, hr']
  refine ⟨fun a d run => (hk _ c c').passes a d (first ▸ run), fun a d side run left => ?_⟩
  rw [first] at run
  rw [second, hv c c' side ((hk _ c c').more run left)]
  exact (hk _ c c').follows a d side run left

/-- What is looked up does not matter. -/
theorem skip {k : ε → Rule γ} {ε' : Type} {k' : ε' → Rule δ} {r : Rule ε} {r' : Rule ε'}
    {v : Setting → Cursor → ε} {v' : Setting → Cursor → ε'}
    (hr : ∀ s c, r s c = .ok (v s c) c) (hr' : ∀ s c, r' s c = .ok (v' s c) c)
    (hk : ∀ a a', Tracks x fresh closes g (k a) (k' a')) :
    Tracks x fresh closes g (r >>= k) (r' >>= k') := by
  intro c c'
  have first : (r >>= k) x.one c = k (v x.one c) x.one c := by rw [bind_apply, hr]
  have second : (r' >>= k') x.other c' = k' (v' x.other c') x.other c' := by rw [bind_apply, hr']
  refine ⟨fun a d run => (hk _ (v' x.other c') c c').passes a d (first ▸ run),
    fun a d side run left => ?_⟩
  rw [first] at run
  rw [second]
  exact (hk _ _ c c').follows a d side run left

/-- What is looked up and given. -/
theorem still {v : Setting → Cursor → α} {v' : Setting → Cursor → β}
    (hr : ∀ s c, r s c = .ok (v s c) c) (hr' : ∀ s c, r' s c = .ok (v' s c) c)
    (hv : ∀ c c', Beside x false c c' → x.tail.length < c.rest.length →
      v' x.other c' = f (v x.one c)) : Tracks x false false f r r' := by
  have given : Tracks x false false f (r >>= Pure.pure) (r' >>= Pure.pure) :=
    look hr hr' hv fun _ => pure
  rwa [bind_pure, bind_pure] at given

theorem passes {k : Nat → Rule γ} {k' : Nat → Rule δ}
    (hk : ∀ n n', Tracks x fresh closes g (k n) (k' n')) :
    Tracks x fresh closes g (passes >>= k) (passes >>= k') :=
  skip (fun _ _ => rfl) (fun _ _ => rfl) hk

theorem limits {k : Limits → Rule γ} {k' : Limits → Rule δ}
    (hk : ∀ l l', Tracks x fresh closes g (k l) (k' l')) :
    Tracks x fresh closes g (limits >>= k) (limits >>= k') :=
  skip (fun _ _ => rfl) (fun _ _ => rfl) hk

theorem dialect {k : Dialect → Rule γ} {k' : Dialect → Rule δ}
    (hk : ∀ d, Tracks x fresh closes g (k d) (k' d)) :
    Tracks x fresh closes g (dialect >>= k) (dialect >>= k') :=
  fun c c' => .dialect fun d => hk d c c'

theorem peek {k : Token → Rule γ} {k' : Token → Rule δ}
    (hk : ∀ t, Tracks x fresh closes g (k t) (k' (t.moved x.shift))) :
    Tracks x fresh closes g (peek >>= k) (peek >>= k') :=
  fun c c' => .peek (hk _ c c')

theorem lexeme {k : Lexeme → Rule γ} {k' : Lexeme → Rule δ}
    (hk : ∀ l, Tracks x fresh closes g (k l) (k' l)) :
    Tracks x fresh closes g (lexeme >>= k) (lexeme >>= k') := by
  refine fun c c' => .lexemeAt 0 fun l' clear => ?_
  rw [clear nofun]
  exact hk _ c c'

theorem sees (t : Terminal) {k : Bool → Rule γ} {k' : Bool → Rule δ}
    (hk : ∀ b, Tracks x fresh closes g (k b) (k' b)) :
    Tracks x fresh closes g (sees t >>= k) (sees t >>= k') := by
  show Tracks x fresh closes g ((Grammar.lexeme >>= fun l => Pure.pure (l.is t)) >>= k)
    ((Grammar.lexeme >>= fun l => Pure.pure (l.is t)) >>= k')
  simp only [bind_assoc, pure_bind]
  exact lexeme fun l => hk _

theorem seen (t : Terminal) : Tracks x false false id (Grammar.sees t) (Grammar.sees t) :=
  lexeme fun _ => pure

theorem atEnd {k : Bool → Rule γ} {k' : Bool → Rule δ}
    (hk : ∀ b, Tracks x fresh closes g (k b) (k' b)) :
    Tracks x fresh closes g (atEnd >>= k) (atEnd >>= k') := by
  show Tracks x fresh closes g ((Grammar.lexeme >>= fun l => Pure.pure l.isFinish) >>= k)
    ((Grammar.lexeme >>= fun l => Pure.pure l.isFinish) >>= k')
  simp only [bind_assoc, pure_bind]
  exact lexeme fun l => hk _

theorem isDeclared (name : String) {k : Bool → Rule γ} {k' : Bool → Rule δ}
    (hk : ∀ b, Tracks x fresh closes g (k b) (k' b)) :
    Tracks x fresh closes g (isDeclared name >>= k) (isDeclared name >>= k') :=
  look (h := id) (fun _ _ => rfl) (fun _ _ => rfl) (fun _ _ side _ => side.declared name) hk

/-! ### Single tokens -/

theorem advance : Tracks x fresh false (Token.moved x.shift) advance advance :=
  fun _ _ => .advance nofun

theorem accept (t : Terminal) : Tracks x false false id (accept t) (accept t) :=
  sees t fun _ => ite (advance.bind fun _ => pure) pure

theorem fail {e : SyntaxError} : Tracks x fresh closes f (Grammar.fail e : Rule α) r' :=
  fails (Triple.fail e)

theorem failExpecting {expected : String} :
    Tracks x fresh closes f (Grammar.failExpecting expected : Rule α) r' :=
  fails (Triple.failExpecting expected)

theorem failInvalid {kind : SyntaxError.Kind} :
    Tracks x fresh closes f (Grammar.failInvalid kind : Rule α) r' :=
  fails (Triple.failInvalid kind)

theorem tooManyPasses : Tracks x fresh closes f (Grammar.tooManyPasses : Rule α) r' :=
  fails Triple.tooManyPasses

theorem tooDeep : Tracks x fresh closes f (Grammar.tooDeep : Rule α) r' :=
  fails Triple.tooDeep

theorem expect (t : Terminal) :
    Tracks x fresh false (Token.moved x.shift) (expect t) (expect t) :=
  sees t fun _ => ite advance failExpecting

theorem expectClosing (t : Terminal) (opener opener' : Token) (kind : SyntaxError.Kind) :
    Tracks x false false id (expectClosing t opener kind) (expectClosing t opener' kind) :=
  sees t fun _ => ite (advance.bind fun _ => pure) (atEnd fun _ => ite fail failExpecting)

/-- A semicolon closes a statement. -/
theorem expectSemicolon : Tracks x fresh true id expectSemicolon expectSemicolon := by
  refine fun c c' => .peek ?_
  dsimp only [Token.moved]
  split
  · next semicolon =>
    refine TracksAt.last (.advance fun _ => ?_) fun _ => .pure
    rw [semicolon]
    rfl
  · exact failExpecting c c'
  · exact failExpecting c c'
  · exact skip (fun _ _ => rfl) (fun _ _ => rfl) (fun _ _ => fail) c c'

theorem expectName (expected : String) :
    Tracks x fresh false (Token.moved x.shift) (expectName expected) (expectName expected) := by
  refine lexeme fun l => ?_
  split
  · exact advance
  · exact failExpecting

theorem expectAnyName (expected : String) : Tracks x fresh false (Token.moved x.shift)
    (expectAnyName expected) (expectAnyName expected) := by
  refine lexeme fun l => ?_
  split
  · exact advance
  · exact dialect fun d => ite advance failExpecting
  · exact failExpecting

/-! ### Brackets -/

theorem bracket {before after : Cursor → Cursor}
    (hb : ∀ c, (before c).rest = c.rest ∧ (before c).declared = c.declared ∧
      (before c).lastStop = c.lastStop)
    (ha : ∀ c, (after c).rest = c.rest ∧ (after c).declared = c.declared ∧
      (after c).lastStop = c.lastStop) (hr : Tracks x fresh closes f r r') :
    Tracks x fresh closes f (Grammar.bracket before after r) (Grammar.bracket before after r') := by
  -- Neither change touches what the two cursors are compared by.
  have keeps {fresh : Bool} {change : Cursor → Cursor} (h : ∀ c, (change c).rest = c.rest ∧
      (change c).declared = c.declared ∧ (change c).lastStop = c.lastStop) {c c' : Cursor}
      (side : Beside x fresh c c') : Beside x fresh (change c) (change c') := by
    obtain ⟨rest, declared, place⟩ := side
    refine ⟨?_, ?_, ?_⟩
    · rwa [(h c).1, (h c').1]
    · rwa [(h c).2.1, (h c').2.1]
    · rwa [(h c).2.2, (h c').2.2]
  intro c c'
  have inner := hr (before c) (before c')
  refine ⟨fun a d run => ?_, fun a d side run left => ?_⟩
  · rw [bracket_apply] at run
    cases hrun : r x.one (before c) with
    | ok b m =>
      rw [hrun] at run
      cases run
      -- What is passed over is passed over inside.
      obtain ⟨front, whole, last⟩ := inner.passes _ _ hrun
      exact ⟨front, by rw [← (hb c).1, (ha m).1, whole], last⟩
    | error e m =>
      rw [hrun] at run
      cases run
  · rw [bracket_apply] at run ⊢
    cases hrun : r x.one (before c) with
    | ok b m =>
      rw [hrun] at run
      cases run
      rw [(ha m).1] at left
      have onward := inner.follows _ _ (keeps hb side) hrun left
      generalize r' x.other (before c') = run' at onward ⊢
      cases onward with
      | ok h => exact .ok ⟨h.1, keeps ha h.2⟩
      | limit e d' => exact .limit e (after d')
    | error e m =>
      rw [hrun] at run
      cases run

theorem nested (hr : Tracks x fresh closes f r r') :
    Tracks x fresh closes f (Grammar.nested r) (Grammar.nested r') :=
  bracket (fun _ => ⟨rfl, rfl, rfl⟩) (fun _ => ⟨rfl, rfl, rfl⟩) hr

theorem recovering {stops : Lexeme → Bool} {pastSemicolon : Bool}
    (hr : Tracks x fresh closes f r r') :
    Tracks x fresh closes (Option.map f) (Grammar.recovering stops pastSemicolon r)
      (Grammar.recovering stops pastSemicolon r') := by
  intro c c'
  refine ⟨fun o d run => ?_, fun o d side run left => ?_⟩
  · obtain ⟨a, rfl, hrun⟩ := recovering_eq_ok x.strict.1 run
    exact (hr c c').passes a d hrun
  · obtain ⟨a, rfl, hrun⟩ := recovering_eq_ok x.strict.1 run
    have onward := (hr c c').follows a d side hrun left
    unfold Grammar.recovering
    generalize r' x.other c' = run' at onward ⊢
    cases onward with
    | ok h => exact .ok ⟨congrArg some h.1, h.2⟩
    | limit e d' => exact .limit e d'

/-! ### Loops -/

theorem tooManyPasses_limited (s : Setting) (c : Cursor) :
    ∃ e d, (Grammar.tooManyPasses : Rule α) s c = .error (.limit e) d :=
  ⟨_, _, rfl⟩

theorem tooDeep_limited (s : Setting) (c : Cursor) :
    ∃ e d, (Grammar.tooDeep : Rule α) s c = .error (.limit e) d :=
  ⟨_, _, rfl⟩

theorem repeating {look : α → Rule (γ ⊕ ε)} {look' : β → Rule (δ ⊕ ε)}
    {step : α → ε → Rule (γ ⊕ α)} {step' : β → ε → Rule (δ ⊕ β)}
    (hlook : ∀ a, Tracks x false false (Sum.map g id) (look a) (look' (f a)))
    (hstep : ∀ a e, Tracks x false false (Sum.map g f) (step a e) (step' (f a) e)) (n n' : Nat)
    (a : α) :
    Tracks x false false g (Grammar.repeating look step n a)
      (Grammar.repeating look' step' n' (f a)) := by
  -- A pass ends the loop on both sides or on neither, since `Sum.map` keeps the side of a sum.
  induction n generalizing n' a with
  | zero =>
    unfold Grammar.repeating
    refine (hlook a).bind fun o => ?_
    cases o with
    | inl b => exact pure
    | inr e => exact tooManyPasses
  | succ n ih =>
    -- The bound on the other side may be lower, and then it is passed there.
    have onward (n' : Nat) : Tracks x false false g (Grammar.repeating look step (n + 1) a)
        (Grammar.repeating look' step' (n' + 1) (f a)) := by
      unfold Grammar.repeating
      refine (hlook a).bind fun o => ?_
      cases o with
      | inl b => exact pure
      | inr e =>
        refine (hstep a e).bind fun o => ?_
        cases o with
        | inl b => exact pure
        | inr a' => exact ih n' a'
    cases n' with
    | succ n' => exact onward n'
    | zero =>
      unfold Grammar.repeating
      refine (hlook a).bind fun o => ?_
      cases o with
      | inl b => exact pure
      | inr e =>
        refine limited (?_ : Tracks x false false g _
          (step' (f a) e >>= Sum.elim Pure.pure (Grammar.repeating look' step' 0)))
          (tooManyPasses_limited x.other)
        refine (hstep a e).bind fun o => ?_
        cases o with
        | inl b => exact pure
        | inr a' => exact ih 0 a'

theorem many {more more' : Rule Bool} {item : Nat → Rule (List α)} {item' : Nat → Rule (List β)}
    (hmore : Tracks x false false id more more')
    (hitem : ∀ size size', Tracks x false false (List.map f) (item size) (item' size'))
    (n n' size size' : Nat) : Tracks x false false (List.map f) (Grammar.many more item n size)
      (Grammar.many more' item' n' size') := by
  -- Induction on the passes that the first run has left; the second may have fewer, and then ends
  -- with a limit.
  induction n generalizing n' size size' with
  | zero =>
    unfold Grammar.many
    exact hmore.bind fun b => ite tooManyPasses pure
  | succ n ih =>
    have pass (n' : Nat) : Tracks x false false (List.map f)
        (item size >>= fun xs => Grammar.many more item n (size + xs.length) >>= fun ys =>
          Pure.pure (xs ++ ys))
        (item' size' >>= fun xs => Grammar.many more' item' n' (size' + xs.length) >>= fun ys =>
          Pure.pure (xs ++ ys)) := by
      refine (hitem size size').bind fun xs => (ih n' _ _).bind fun ys => ?_
      rw [← List.map_append]
      exact pure
    cases n' with
    | succ n' =>
      unfold Grammar.many
      exact hmore.bind fun b => ite (pass n') pure
    | zero =>
      unfold Grammar.many
      exact hmore.bind fun b => ite ((pass 0).limited (tooManyPasses_limited x.other)) pure

theorem listed {more more' : Rule Bool} {item : Rule α} {item' : Rule β} {spanOf : α → Span}
    {spanOf' : β → Span} (hmore : Tracks x false false id more more')
    (hitem : Tracks x false false f item item') (n n' size size' : Nat) :
    Tracks x false false (List.map f) (Grammar.listed more item spanOf n size)
      (Grammar.listed more' item' spanOf' n' size') := by
  -- Induction on the passes that the first run has left, as for `many`.
  induction n generalizing n' size size' with
  | zero =>
    unfold Grammar.listed
    exact hmore.bind fun b => ite tooManyPasses pure
  | succ n ih =>
    have pass (n' : Nat) : Tracks x false false (List.map f)
        (item >>= fun a => checkSize (size + 1) (spanOf a) >>= fun _ => Grammar.accept Mark.comma >>=
          fun b => if b = true then Grammar.listed more item spanOf n (size + 1) >>= fun as =>
            Pure.pure (a :: as) else Pure.pure [a])
        (item' >>= fun a => checkSize (size' + 1) (spanOf' a) >>= fun _ =>
          Grammar.accept Mark.comma >>= fun b =>
          if b = true then Grammar.listed more' item' spanOf' n' (size' + 1) >>= fun as =>
            Pure.pure (a :: as) else Pure.pure [a]) := by
      refine hitem.bind fun a => (Idle.checkSize _ _ _ _).tracks.bind fun _ => ?_
      refine (accept _).bind fun b => ite ((ih n' _ _).bind fun as => ?_) pure
      rw [← List.map_cons]
      exact pure
    cases n' with
    | succ n' =>
      unfold Grammar.listed
      exact hmore.bind fun b => ite (pass n') pure
    | zero =>
      unfold Grammar.listed
      exact hmore.bind fun b => ite ((pass 0).limited (tooManyPasses_limited x.other)) pure

theorem commaTail {item : Rule α} {item' : Rule β} {spanOf : α → Span} {spanOf' : β → Span}
    (hitem : Tracks x false false f item item') (room room' : Nat) :
    Tracks x false false (List.map f) (Grammar.commaTail item spanOf room)
      (Grammar.commaTail item' spanOf' room') := by
  have full {a : α} : Fails (Grammar.limits >>= fun l => Grammar.failLimit (α := List α)
      ⟨.collectionSize, l.maxCollectionSize, l.maxCollectionSize + 1, spanOf a⟩) :=
    Triple.bind_fails fun _ => Triple.failLimit _
  -- Induction on the room that the first run has; without any it fails at a further item.
  induction room generalizing room' with
  | zero =>
    unfold Grammar.commaTail
    exact (accept _).bind fun b => ite (hitem.bind fun a => fails full) pure
  | succ room ih =>
    have tail (room' : Nat) (a : α) : Tracks x false false (List.map f)
        (Grammar.commaTail item spanOf room >>= fun as => Pure.pure (a :: as))
        (Grammar.commaTail item' spanOf' room' >>= fun as => Pure.pure (f a :: as)) := by
      refine (ih room').bind fun as => ?_
      rw [← List.map_cons]
      exact pure
    cases room' with
    | succ room' =>
      unfold Grammar.commaTail
      exact (accept _).bind fun b => ite (hitem.bind fun a => tail room' a) pure
    | zero =>
      unfold Grammar.commaTail
      refine (accept _).bind fun b => ite (hitem.bind fun a => ?_) pure
      exact (tail 0 a).limited fun _ => ⟨_, _, rfl⟩

theorem commaList {item : Rule α} {item' : Rule β} {spanOf : α → Span} {spanOf' : β → Span}
    (hitem : Tracks x true false f item item') : Tracks x true false (List.map f)
      (Grammar.commaList item spanOf) (Grammar.commaList item' spanOf') := by
  refine hitem.bind fun a => limits fun l l' => ?_
  refine (commaTail hitem.level _ _).bind fun as => ?_
  rw [← List.map_cons]
  exact pure

/-- A loop whose passes all close a statement passes over nothing or closes one. -/
theorem many_passes {more : Rule Bool} {item : Nat → Rule (List α)} {value : Setting → Cursor → Bool}
    (hmore : ∀ s c, more s c = .ok (value s c) c)
    (hitem : ∀ size c as d, item size x.one c = .ok as d → ReadsOver true c d) {n size : Nat}
    {c d : Cursor} {as : List α} (run : Grammar.many more item n size x.one c = .ok as d) :
    as = [] ∧ d = c ∨ ReadsOver true c d := by
  induction n using Nat.strongRecOn generalizing size c as with
  | ind n ih =>
    obtain ⟨-, rfl, rfl⟩ | ⟨-, n', xs, ys, m, fewer, first, rest, rfl⟩ := many_eq_ok hmore run
    · exact .inl ⟨rfl, rfl⟩
    · have passed := hitem _ _ _ _ first
      obtain ⟨-, rfl⟩ | later := ih n' fewer rest
      · exact .inr passed
      · exact .inr (passed.weaken.trans later)

/-- A loop whose passes may each end with the stretch may end with it as well, if it ends behind the
stretch on both sides. -/
theorem many_follows {more : Rule Bool} {item : Nat → Rule (List α)} {item' : Nat → Rule (List β)}
    {value : Setting → Cursor → Bool} (hmore : ∀ s c, more s c = .ok (value s c) c)
    (inside : ∀ fresh c c', Beside x fresh c c' → x.tail.length < c.rest.length →
      value x.other c' = value x.one c)
    (behind : ∀ c, c.rest = x.tail → value x.one c = false)
    (behind' : ∀ c, c.rest = x.tail' → value x.other c = false)
    (hitem : ∀ size size', Tracks x true true (List.map f) (item size) (item' size'))
    {n n' size size' : Nat} {c c' d : Cursor} {as : List α} (side : Beside x fresh c c')
    (run : Grammar.many more item n size x.one c = .ok as d)
    (left : x.tail.length ≤ d.rest.length) :
    UnlessLimited (fun bs d' => bs = as.map f ∧ Beside x fresh d d')
      (Grammar.many more item' n' size' x.other c') := by
  -- Induction on the passes on the one side; the place is level once a pass is made.
  have same {fresh : Bool} {c c' : Cursor} (side : Beside x fresh c c') :
      value x.other c' = value x.one c := by
    by_cases more : x.tail.length < c.rest.length
    · exact inside fresh c c' side more
    · obtain ⟨before, after⟩ := side.behind more
      rw [behind c before, behind' c' after]
  induction n using Nat.strongRecOn generalizing n' size size' c c' as fresh with
  | ind n ih =>
    obtain ⟨hv, rfl, rfl⟩ | ⟨hv, k, xs, ys, m, fewer, first, rest, rfl⟩ := many_eq_ok hmore run
    · rw [many_done ((same side).trans hv ▸ hmore x.other c')]
      exact .ok ⟨rfl, side⟩
    · have hv' := (same side).trans hv
      have within : x.tail.length ≤ m.rest.length := by
        obtain ⟨-, rfl⟩ | passed :=
          many_passes hmore (fun size c as d run => (hitem size size c c).passes as d run) rest
        · exact left
        · exact Nat.le_trans left (Nat.le_of_succ_le passed.length_le)
      cases n' with
      | zero =>
        obtain ⟨e, limit⟩ : ∃ e, Grammar.many more item' 0 size' x.other c' = .error (.limit e) c' :=
          many_zero (hv' ▸ hmore x.other c')
        rw [limit]
        exact .limit e c'
      | succ n' =>
        rw [many_succ (hv' ▸ hmore x.other c')]
        refine ((hitem size size' c c').follows xs m side.any first within).bind ?_
        rintro us m₁ ⟨rfl, side⟩
        refine (ih k fewer side rest).bind ?_
        rintro vs m₂ ⟨rfl, side⟩
        exact .ok ⟨(List.map_append ..).symm, side.of_level⟩

/-- A part that may be left out. -/
theorem optional {p : Prop} [Decidable p] {k : Option α → Rule γ} {k' : Option β → Rule δ}
    (hr : Tracks x false false f r r')
    (hk : ∀ o, Tracks x false closes g (k o) (k' (Option.map f o))) :
    Tracks x false closes g (if p then some <$> r >>= k else Pure.pure none >>= k)
      (if p then some <$> r' >>= k' else Pure.pure none >>= k') :=
  ite ((hr.map (g := Option.map f) fun _ => rfl).bind hk) (pure.bind hk)

end Tracks

end Plc.Grammar

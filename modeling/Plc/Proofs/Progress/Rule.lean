/-
Rules that come to an end by themselves.

A bound only cuts a reading off.  Where every pass of a loop and every construct that is opened
passes over a token, there are bounds so large that none of them is ever met.  Along the way each
error that is recovered from is paid for by a token of its own.

* `Amply` — what holds under all bounds that are large enough;
* `Kept` — what is left of the tokens, and of the errors that they may pay for;
* `Ends` — a rule that no bound ends when all are large enough;
* `Ends.bind`, `Ends.loop` — rules made of others, and loops whose passes all pass over a token;
* `Ends.recovering` — going on after an error.
-/
import Plc.Proofs.Limits.Raised
import Plc.Proofs.Nesting.Laid
import Plc.Proofs.Recovery.Forgiving

namespace Plc.Grammar

variable {α β γ : Type}

/-! ### Bounds that are large enough -/

/-- Under all bounds that are large enough the property holds.  So many constructs may be opened,
and the limits bound the rest. -/
def Amply (P : Nat → Limits → Prop) : Prop :=
  ∃ room, ∀ levels (l : Limits), room ≤ levels → (∀ kind, room ≤ l.bound kind) → P levels l

namespace Amply

variable {P Q : Nat → Limits → Prop}

theorem of_all (h : ∀ levels l, P levels l) : Amply P :=
  ⟨0, fun levels l _ _ => h levels l⟩

theorem mono (h : Amply P) (imp : ∀ levels l, P levels l → Q levels l) : Amply Q := by
  obtain ⟨room, holds⟩ := h
  exact ⟨room, fun levels l deep wide => imp levels l (holds levels l deep wide)⟩

theorem and (hP : Amply P) (hQ : Amply Q) : Amply fun levels l => P levels l ∧ Q levels l := by
  obtain ⟨room, first⟩ := hP
  obtain ⟨room', second⟩ := hQ
  refine ⟨max room room', fun levels l deep wide => ⟨first levels l ?_ ?_, second levels l ?_ ?_⟩⟩
  · exact Nat.le_trans (Nat.le_max_left ..) deep
  · exact fun kind => Nat.le_trans (Nat.le_max_left ..) (wide kind)
  · exact Nat.le_trans (Nat.le_max_right ..) deep
  · exact fun kind => Nat.le_trans (Nat.le_max_right ..) (wide kind)

/-- There are bounds that are large enough. -/
theorem holds (h : Amply P) : ∃ levels l, P levels l := by
  obtain ⟨room, all⟩ := h
  refine ⟨room, ⟨room, room, room, room, room, room⟩, all _ _ (Nat.le_refl _) fun kind => ?_⟩
  cases kind <;> exact Nat.le_refl _

/-- Each bound is as large as wanted. -/
theorem bound (kind : LimitKind) (n : Nat) : Amply fun _ l => n ≤ l.bound kind :=
  ⟨n, fun _ _ _ wide => wide kind⟩

/-- There is always one construct more that may be opened. -/
theorem deeper (h : Amply fun levels l => P (levels + 1) l) : Amply P := by
  obtain ⟨room, holds⟩ := h
  refine ⟨room + 1, fun levels l deep wide => ?_⟩
  obtain ⟨less, rfl⟩ := Nat.exists_eq_add_of_le' (Nat.le_trans (Nat.le_add_left 1 room) deep)
  exact holds less l (Nat.le_of_succ_le_succ deep) fun kind => Nat.le_of_succ_le (wide kind)

end Amply

/-! ### What is left -/

/-- The tokens and errors at the second place were left by a rule that began at the first.  There
are no more new errors than tokens passed over; and fewer, if any token was passed over and one is to
be spared. -/
structure Kept (spare : Bool) (c c' : Cursor) : Prop where
  rest : c'.rest <:+ c.rest
  index : c'.index + c'.rest.length = c.index + c.rest.length
  paid : c'.errors.length + c'.rest.length ≤ c.errors.length + c.rest.length
  spared : spare = true → c'.index ≠ c.index →
    c'.errors.length + c'.rest.length < c.errors.length + c.rest.length

namespace Kept

variable {spare : Bool} {c c' c'' : Cursor}

/-- Where no token is passed over and no error recorded, everything is kept. -/
theorem same (rest : c'.rest = c.rest) (index : c'.index = c.index)
    (errors : c'.errors = c.errors) : Kept spare c c' where
  rest := rest ▸ List.suffix_rfl
  index := by rw [rest, index]
  paid := Nat.le_of_eq (by rw [rest, errors])
  spared := fun _ moved => absurd index moved

theorem refl (spare : Bool) (c : Cursor) : Kept spare c c :=
  same rfl rfl rfl

theorem length_le (h : Kept spare c c') : c'.rest.length ≤ c.rest.length :=
  h.rest.length_le

theorem index_le (h : Kept spare c c') : c.index ≤ c'.index := by
  have := h.index
  have := h.length_le
  omega

theorem length_lt {n : Nat} (h : Kept spare c c') (on : c.index + 1 ≤ c'.index)
    (few : c.rest.length ≤ n) : c'.rest.length < n := by
  have := h.index
  omega

theorem fair (h : Kept spare c c') : Kept false c c' :=
  { h with spared := nofun }

theorem trans (h : Kept spare c c') (h' : Kept spare c' c'') : Kept spare c c'' where
  rest := h'.rest.trans h.rest
  index := h'.index.trans h.index
  paid := Nat.le_trans h'.paid h.paid
  spared asked moved := by
    by_cases still : c'.index = c.index
    · exact Nat.lt_of_lt_of_le (h'.spared asked fun same => moved (same.trans still)) h.paid
    · exact Nat.lt_of_le_of_lt h'.paid (h.spared asked still)

/-- The first token is spared, and pays for an error that ends all of it. -/
theorem first (h : Kept true c c') (on : c.index < c'.index) (h' : Kept false c' c'') :
    Kept spare c c'' where
  rest := h'.rest.trans h.rest
  index := h'.index.trans h.index
  paid := Nat.le_trans h'.paid h.paid
  spared _ _ := Nat.lt_of_le_of_lt h'.paid (h.spared rfl (Nat.ne_of_gt on))

/-- An error that was recorded on the way is paid for as soon as a token is passed over, before it
or after it. -/
theorem noted {e : SyntaxError} (h : Kept true c c')
    (h' : Kept true { c' with errors := c'.errors ++ [e] } c'') (moved : c''.index ≠ c.index) :
    Kept false c c'' where
  rest := h'.rest.trans h.rest
  index := h'.index.trans h.index
  spared := nofun
  paid := by
    have one : (c'.errors ++ [e]).length = c'.errors.length + 1 := List.length_append
    by_cases still : c'.index = c.index
    · have before := h.paid
      have after : c''.errors.length + c''.rest.length < (c'.errors ++ [e]).length + c'.rest.length :=
        h'.spared rfl fun same => moved (same.trans still)
      omega
    · have before := h.spared rfl still
      have after : c''.errors.length + c''.rest.length ≤ (c'.errors ++ [e]).length + c'.rest.length :=
        h'.paid
      omega

/-- Passing over a token keeps all others. -/
theorem past {t : Token} {rest : List Token}
    (tokens : c.rest = t :: rest) : Kept spare c (Triple.past c t rest) := by
  have length : c.rest.length = rest.length + 1 := congrArg List.length tokens
  refine ⟨tokens ▸ List.suffix_cons t rest, ?_, ?_, fun _ _ => ?_⟩
  · show c.index + 1 + rest.length = _
    omega
  · show c.errors.length + rest.length ≤ _
    omega
  · show c.errors.length + rest.length < _
    omega

end Kept

/-- What is left after a run that no bound ended.  A result `a` comes after at least `need a`
tokens. -/
def Fares (need : α → Nat) (spare : Bool) (c : Cursor) : EStateM.Result Fault Cursor α → Prop
  | .ok a c' => Kept spare c c' ∧ c.index + need a ≤ c'.index
  | .error (.grammar _) c' => Kept spare c c'
  | .error (.limit _) _ | .error .endless _ => False
  | .error .unreadableDigits _ | .error .infiniteDuration _ => True

namespace Fares

variable {need : α → Nat} {need' : β → Nat} {spare : Bool} {c c' : Cursor}
  {run : EStateM.Result Fault Cursor β}

theorem error {f : Fault} (h : Fares need spare c (.error f c')) :
    Fares need' spare c (.error f c') := by
  cases f <;> exact h

theorem closing {after : Cursor → Cursor} (still : ∀ c', Kept spare c' (after c'))
    (h : Fares need' spare c run) : Fares need' spare c (closing after run) := by
  cases run with
  | ok b c' => exact ⟨h.1.trans (still c'), Nat.le_trans h.2 (still c').index_le⟩
  | error f c' =>
    cases f with
    | grammar e => exact Kept.trans h (still c')
    | limit | unreadableDigits | infiniteDuration | endless => exact h

/-- What holds of a run from a later place on holds from an earlier one on. -/
theorem through {spare' : Bool} {need'' : β → Nat}
    (keeps : ∀ ⦃d⦄, Kept spare' c' d → Kept spare c d)
    (needs : ∀ b i, c'.index + need'' b ≤ i → c.index + need' b ≤ i)
    (h : Fares need'' spare' c' run) : Fares need' spare c run := by
  cases run with
  | ok b d => exact ⟨keeps h.1, needs b d.index h.2⟩
  | error f d =>
    cases f with
    | grammar e => exact keeps h
    | limit | unreadableDigits | infiniteDuration | endless => exact h

theorem later (kept : Kept spare c c') (h : Fares need' spare c' run) : Fares need' spare c run :=
  h.through (fun _ => kept.trans) fun _ _ => Nat.le_trans (Nat.add_le_add_right kept.index_le _)

/-- The tokens that a rule passes over count for what it is part of. -/
theorem after {a : α} (kept : Kept spare c c') (on : c.index + need a ≤ c'.index)
    (h : Fares (fun b => need' b - need a) spare c' run) : Fares need' spare c run :=
  h.through (fun _ => kept.trans) fun b i later => by omega

/-- After a first token that is spared, there may be as many errors as tokens. -/
theorem behind (kept : Kept true c c') (on : c.index + 1 ≤ c'.index)
    (h : Fares (fun b => need' b - 1) false c' run) : Fares need' spare c run :=
  h.through (fun _ => kept.first on) fun b i later => by omega

/-- A run that spares a token does so whether that is asked for or not. -/
theorem yield (h : Fares need' true c run) : Fares need' spare c run := by
  cases spare with
  | true => exact h
  | false => exact h.through (fun _ => Kept.fair) fun _ _ => id

end Fares

/-! ### Rules that end -/

/-- The end of the text is a token that says so. -/
def Setting.EndsText (s : Setting) : Prop := s.finish.lexeme = .finish

/-- With at most `n` tokens left, and at least one if so `ahead`, the rule comes out alike under all
bounds that are large enough, and no bound ends it. -/
def Ends (ahead : Bool) (n : Nat) (need : α → Nat) (spare : Bool) (r : Nat → Rule α) : Prop :=
  ∀ (s : Setting) (c : Cursor), s.EndsText → c.rest.length ≤ n →
    (ahead = true → (s.next c).lexeme.isFinish = false) →
    ∃ run, Fares need spare c run ∧ Amply fun levels l => r levels (s.raised l) c = run

/-- The rule looks at the text or at what is declared, and at no bound. -/
def Looks (r : Rule α) : Prop :=
  ∀ (s : Setting) (c : Cursor), ∃ a, ∀ l, r (s.raised l) c = .ok a c

theorem bind_ok {r : Rule α} {f : α → Rule β} {s : Setting} {c c' : Cursor} {a : α}
    (h : r s c = .ok a c') : (r >>= f) s c = f a s c' := by
  rw [bind_apply, h]

theorem bind_error {r : Rule α} {f : α → Rule β} {s : Setting} {c c' : Cursor} {e : Fault}
    (h : r s c = .error e c') : (r >>= f) s c = .error e c' := by
  rw [bind_apply, h]

/-- A token that ends the text has no other lexeme. -/
theorem eq_finish {l : Lexeme} (h : l.isFinish = true) : l = .finish := by
  cases l <;> first | rfl | cases h

/-- Where the text does not end, there is a token left. -/
theorem Setting.EndsText.ahead {s : Setting} {c : Cursor} (h : s.EndsText)
    (goes : (s.next c).lexeme.isFinish = false) : ∃ t rest, c.rest = t :: rest := by
  cases tokens : c.rest with
  | nil =>
    rw [Setting.next, tokens, List.getD_nil, h] at goes
    cases goes
  | cons t rest => exact ⟨t, rest, rfl⟩

namespace Looks

theorem pure (a : α) : Looks (pure a : Rule α) := fun _ _ => ⟨a, fun _ => rfl⟩

theorem bind {r : Rule α} {f : α → Rule β} (hr : Looks r) (hf : ∀ a, Looks (f a)) :
    Looks (r >>= f) := by
  intro s c
  obtain ⟨a, first⟩ := hr s c
  obtain ⟨b, second⟩ := hf a s c
  refine ⟨b, fun l => ?_⟩
  rw [bind_apply, first]
  exact second l

theorem ite {p : Prop} [Decidable p] {r r' : Rule α} (hr : Looks r) (hr' : Looks r') :
    Looks (if p then r else r') := by
  split
  · exact hr
  · exact hr'

theorem peekAt (n : Nat) : Looks (peekAt n) := fun s c => ⟨c.rest.getD n s.finish, fun _ => rfl⟩

theorem peek : Looks peek := peekAt 0

theorem lexemeAt (n : Nat) : Looks (lexemeAt n) := (peekAt n).bind fun _ => .pure _

theorem lexeme : Looks lexeme := lexemeAt 0

theorem sees (t : Terminal) : Looks (sees t) := lexeme.bind fun _ => .pure _

theorem atEnd : Looks atEnd := lexeme.bind fun _ => .pure _

theorem sourceText : Looks sourceText := fun s _ => ⟨s.source, fun _ => rfl⟩

theorem dialect : Looks dialect := fun s _ => ⟨s.dialect, fun _ => rfl⟩

theorem lastStop : Looks lastStop := fun _ c => ⟨c.lastStop, fun _ => rfl⟩

theorem tokensLeft : Looks tokensLeft := fun _ c => ⟨c.rest, fun _ => rfl⟩

theorem spanFrom (start : Span) : Looks (spanFrom start) := lastStop.bind fun _ => .pure _

theorem isDeclared (name : String) : Looks (isDeclared name) :=
  fun _ c => ⟨c.declared.any (·.contains name), fun _ => rfl⟩

theorem restOfLine (start : Nat) : Looks (restOfLine start) := sourceText.bind fun _ => .pure _

theorem unexpected (expected : String) : Looks (unexpected expected) := peek.bind fun _ => .pure _

theorem seesStray (ends : List Keyword) : Looks (seesStray ends) :=
  fun s c => ⟨s.recovers && isStray ends (s.next c).lexeme, fun _ => rfl⟩

end Looks

/-! ### Recovery and passes of loops -/

/-- What becomes of a run when errors are recovered from. -/
def recovered (stops : Lexeme → Bool) (pastSemicolon : Bool) (start : Nat) (s : Setting) :
    EStateM.Result Fault Cursor α → EStateM.Result Fault Cursor (Option α)
  | .ok a c => .ok (some a) c
  | .error (.grammar e) c =>
    if s.recovers then
      match resumeAfter e start stops pastSemicolon s c with
      | .ok () c' => .ok none c'
      | .error fault c' => .error fault c'
    else .error (.grammar e) c
  | .error fault c => .error fault c

theorem recovering_apply (stops : Lexeme → Bool) (pastSemicolon : Bool) (r : Rule α) (s : Setting)
    (c : Cursor) :
    recovering stops pastSemicolon r s c = recovered stops pastSemicolon c.index s (r s c) := by
  unfold recovering recovered
  rfl

/-- A pass of a loop that goes on passes over a token. -/
def passing : α ⊕ β → Nat
  | .inl _ => 0
  | .inr _ => 1

/-- One pass of a loop that reads items. -/
def manyPass (more : Rule Bool) (item : Rule (List α)) : Rule (List α ⊕ List α) := do
  if ← more then .inr <$> item else return .inl []

/-- One pass of a loop over items with commas between them. -/
def listedPass (more : Rule Bool) (item : Rule α) (spanOf : α → Span) (size : Nat) :
    Rule (List α ⊕ α) := do
  if ← more then
    let x ← item
    checkSize (size + 1) (spanOf x)
    if ← accept Mark.comma then return .inr x else return .inl [x]
  else return .inl []

/-- One item after a comma. -/
def commaPass (item : Rule α) : Rule (List α ⊕ α) := do
  if ← accept Mark.comma then .inr <$> item else return .inl []

namespace Ends

variable {ahead spare : Bool} {n : Nat} {need : α → Nat} {need' : β → Nat}
  {r : Nat → Rule α} {f : α → Nat → Rule β}

/-! ### Rules made of others -/

/-- A rule and what follows it, told by what holds of both together. -/
theorem chain {spare' : Bool} (hr : Ends ahead n need spare' r)
    (fails : ∀ {c e c'}, Fares need spare' c (.error e c') → Fares need' spare c (.error e c'))
    (goes : ∀ {s : Setting} {c c' a}, s.EndsText → c.rest.length ≤ n →
      Fares need spare' c (.ok a c') → ∃ run, Fares need' spare c run ∧
        Amply fun levels l => f a levels (s.raised l) c' = run) :
    Ends ahead n need' spare fun levels => r levels >>= fun a => f a levels := by
  intro s c ends few on
  obtain ⟨run, fares, runs⟩ := hr s c ends few on
  cases run with
  | error e c' =>
    exact ⟨.error e c', fails fares, runs.mono fun levels l failed => bind_error failed⟩
  | ok a c' =>
    obtain ⟨run, fares', runs'⟩ := goes ends few fares
    exact ⟨run, fares', (runs.and runs').mono fun levels l both => (bind_ok both.1).trans both.2⟩

theorem bind (hr : Ends ahead n need spare r)
    (hf : ∀ a, Ends false n (fun b => need' b - need a) spare (f a)) :
    Ends ahead n need' spare fun levels => r levels >>= fun a => f a levels := by
  refine hr.chain .error fun {s c c' a} ends few fares => ?_
  obtain ⟨run, fares', runs⟩ := hf a s c' ends (Nat.le_trans fares.1.length_le few) nofun
  exact ⟨run, .after fares.1 fares.2 fares', runs⟩

/-- What comes behind a first token has fewer tokens left. -/
theorem inside (hr : Ends ahead n (fun _ => 1) spare r)
    (hf : ∀ m < n, ∀ a, Ends false m (fun _ => 0) spare (f a)) :
    Ends ahead n (fun _ => 1) spare fun levels => r levels >>= fun a => f a levels := by
  refine hr.chain .error fun {s c c' a} ends few fares => ?_
  obtain ⟨run, fares', runs⟩ := hf c'.rest.length (fares.1.length_lt fares.2 few) a s c' ends
    (Nat.le_refl _) nofun
  exact ⟨run, .after fares.1 fares.2 fares', runs⟩

/-- Behind a first token that is spared, there may be as many errors as tokens. -/
theorem first (hr : Ends ahead n (fun _ => 1) true r)
    (hf : ∀ m < n, ∀ a, Ends false m (fun _ => 0) false (f a)) :
    Ends ahead n (fun _ => 1) spare fun levels => r levels >>= fun a => f a levels := by
  refine hr.chain (fun failed => failed.error.yield) fun {s c c' a} ends few fares => ?_
  obtain ⟨run, fares', runs⟩ := hf c'.rest.length (fares.1.length_lt fares.2 few) a s c' ends
    (Nat.le_refl _) nofun
  exact ⟨run, .behind fares.1 fares.2 fares', runs⟩

/-- Nothing more is needed once the first token is passed over. -/
theorem lead (hr : Ends ahead n (fun _ => 1) spare r)
    (hf : ∀ a, Ends false n (fun _ => 0) spare (f a)) :
    Ends ahead n (fun _ => 1) spare fun levels => r levels >>= fun a => f a levels :=
  hr.bind hf

/-- Nothing is needed. -/
theorem next (hr : Ends ahead n need spare r) (hf : ∀ a, Ends false n (fun _ => 0) spare (f a)) :
    Ends ahead n (fun _ => 0) spare fun levels => r levels >>= fun a => f a levels :=
  hr.bind fun a => by simpa only [Nat.zero_sub] using hf a

/-- Looking is free. -/
theorem look {r : Rule α} (hr : Looks r) (hf : ∀ a, Ends ahead n need' spare (f a)) :
    Ends ahead n need' spare fun levels => r >>= fun a => f a levels := by
  intro s c ends few goes
  obtain ⟨a, first⟩ := hr s c
  obtain ⟨run, fares, runs⟩ := hf a s c ends few goes
  exact ⟨run, fares, runs.mono fun levels l second => (bind_ok (first l)).trans second⟩

theorem any (h : Ends false n need spare r) : Ends ahead n need spare r :=
  fun s c ends few _ => h s c ends few nofun

theorem ite {p : Prop} [Decidable p] {r r' : Nat → Rule α} (hr : p → Ends ahead n need spare r)
    (hr' : ¬p → Ends ahead n need spare r') :
    Ends ahead n need spare fun levels => if p then r levels else r' levels := by
  by_cases h : p
  · simpa only [if_pos h] using hr h
  · simpa only [if_neg h] using hr' h

/-- A rule where its condition is met. -/
theorem on {r r' : Nat → Rule α} (h : Ends ahead n need spare r) :
    Ends ahead n need spare fun levels => if true = true then r levels else r' levels :=
  h

/-- A rule where the condition of another is not met. -/
theorem off {r r' : Nat → Rule α} (h : Ends ahead n need spare r') :
    Ends ahead n need spare fun levels => if false = true then r levels else r' levels :=
  h

/-- A choice between two rules, after which the reading goes on alike. -/
theorem choose {p : Prop} [Decidable p] {r r' : Nat → Rule α} {need need' : α → Nat}
    (hr : Ends ahead n need spare r) (hr' : Ends ahead n need' spare r')
    (hf : ∀ a, Ends false n (fun _ => 0) spare (f a)) :
    Ends ahead n (fun _ => 0) spare fun levels =>
      if p then r levels >>= fun a => f a levels else r' levels >>= fun a => f a levels :=
  ite (fun _ => hr.next hf) fun _ => hr'.next hf

/-- A rule that is left out where it is not wanted. -/
theorem optional {p : Prop} [Decidable p] {f : Nat → Rule β} (hr : Ends ahead n need spare r)
    (hf : Ends false n (fun _ => 0) spare f) : Ends ahead n (fun _ => 0) spare fun levels =>
      if p then r levels >>= fun _ => f levels else f levels :=
  ite (fun _ => hr.next fun _ => hf) fun _ => hf.any

/-- What follows on a loop and the bound on it. -/
theorem follow {g : Nat → Nat → Rule α}
    (hg : Ends ahead n need spare fun levels => passes >>= g levels)
    (hf : ∀ a, Ends false n (fun _ => 0) spare (f a)) :
    Ends ahead n (fun _ => 0) spare fun levels =>
      passes >>= fun p => g levels p >>= fun a => f a levels := by
  simpa only [bind_assoc] using hg.next hf

theorem fewer {m : Nat} (le : m ≤ n) (h : Ends ahead n need spare r) : Ends ahead m need spare r :=
  fun s c ends few goes => h s c ends (Nat.le_trans few le) goes

theorem below (h : Ends ahead n need spare r) : ∀ m < n, Ends ahead m need spare r :=
  fun _ less => h.fewer (Nat.le_of_lt less)

/-- A rule that passes over more tokens than it has to. -/
theorem less {less : α → Nat} (le : ∀ a, less a ≤ need a) (h : Ends ahead n need spare r) :
    Ends ahead n less spare r := by
  intro s c ends few goes
  obtain ⟨run, fares, runs⟩ := h s c ends few goes
  refine ⟨run, ?_, runs⟩
  cases run with
  | ok a c' => exact ⟨fares.1, Nat.le_trans (Nat.add_le_add_left (le a) _) fares.2⟩
  | error f c' => exact fares.error

theorem free (h : Ends ahead n need spare r) : Ends ahead n (fun _ => 0) spare r :=
  h.less fun _ => Nat.zero_le _

/-- A rule inside a bracket that leaves the tokens and the errors alone. -/
theorem bracket {before after : Cursor → Cursor} (enters : ∀ c, Kept spare c (before c))
    (same : ∀ c, (before c).rest = c.rest)
    (leaves : ∀ c, Kept spare c (after c)) (h : Ends ahead n need spare r) :
    Ends ahead n need spare fun levels => bracket before after (r levels) := by
  intro s c ends few goes
  obtain ⟨run, fares, runs⟩ := h s (before c) ends (by rwa [same c])
    (by rwa [Setting.next, same c])
  refine ⟨closing after run, (fares.closing leaves).later (enters c), ?_⟩
  exact runs.mono fun levels l inner => (bracket_apply ..).trans (congrArg _ inner)

theorem nested (h : Ends ahead n need spare r) :
    Ends ahead n need spare fun levels => nested (r levels) :=
  h.bracket (fun _ => .same rfl rfl rfl) (fun _ => rfl) fun _ => .same rfl rfl rfl

theorem declaring (names : List String) (h : Ends ahead n need spare r) :
    Ends ahead n need spare fun levels => declaring names (r levels) :=
  h.bracket (fun _ => .same rfl rfl rfl) (fun _ => rfl) fun _ => .same rfl rfl rfl

/-- A rule that opens one more construct. -/
theorem deeper {inside : Nat → Rule α}
    (opens : ∀ levels, r (levels + 1) = Grammar.nested (inside levels))
    (h : Ends ahead n need spare inside) : Ends ahead n need spare r := by
  intro s c ends few goes
  obtain ⟨run, fares, runs⟩ := h.nested s c ends few goes
  exact ⟨run, fares, .deeper (runs.mono fun levels l inner =>
    (congrArg (fun rule : Rule α => rule (s.raised l) c) (opens levels)).trans inner)⟩

/-! ### Single steps -/

/-- A rule that leaves the tokens and the errors alone, and that no bound ends where all are large
enough. -/
theorem still (h : ∀ (s : Setting) (c : Cursor), ∃ a c', c'.rest = c.rest ∧ c'.index = c.index ∧
      c'.errors = c.errors ∧ Amply fun levels l => r levels (s.raised l) c = .ok a c') :
    Ends ahead n (fun _ => 0) spare r := by
  intro s c _ _ _
  obtain ⟨a, c', rest, index, errors, runs⟩ := h s c
  exact ⟨.ok a c', ⟨.same rest index errors, Nat.le_of_eq index.symm⟩, runs⟩

theorem pure (a : α) : Ends ahead n (fun _ => 0) spare fun _ => (pure a : Rule α) :=
  still fun _ c => ⟨a, c, rfl, rfl, rfl, .of_all fun _ _ => rfl⟩

/-- A result that did not need any token. -/
theorem done {a : α} (free : need a = 0) :
    Ends ahead n need spare fun _ => (Pure.pure a : Rule α) := by
  intro s c _ _ _
  exact ⟨.ok a c, ⟨.refl spare c, Nat.le_of_eq (congrArg _ free)⟩, .of_all fun _ _ => rfl⟩

theorem map {g : α → β} (h : Ends ahead n need spare r) :
    Ends ahead n (fun _ => 0) spare fun levels => g <$> r levels := by
  simp only [map_eq_pure_bind]
  exact h.next fun _ => done rfl

theorem fail (e : SyntaxError) : Ends ahead n need spare fun _ => (fail e : Rule α) :=
  fun _ c _ _ _ => ⟨.error (.grammar e) c, Kept.refl spare c, .of_all fun _ _ => rfl⟩

theorem advance : Ends true n (fun _ => 1) spare fun _ => advance := by
  intro s c ends _ goes
  obtain ⟨t, rest, tokens⟩ := ends.ahead (goes rfl)
  exact ⟨.ok t (Triple.past c t rest), ⟨.past tokens, Nat.le_refl _⟩,
    .of_all fun _ _ => advance_cons tokens⟩

/-- At the end of the text no token is passed over. -/
theorem step : Ends ahead n (fun _ => 0) spare fun _ => Grammar.advance := by
  intro s c _ _ _
  cases tokens : c.rest with
  | nil =>
    exact ⟨.ok s.finish { c with lastStop := s.finish.span.stop },
      ⟨.same rfl rfl rfl, Nat.le_refl _⟩,
      .of_all fun _ _ => advance_nil tokens⟩
  | cons t rest =>
    exact ⟨.ok t (Triple.past c t rest), ⟨.past tokens, Nat.le_succ _⟩,
      .of_all fun _ _ => advance_cons tokens⟩

theorem lexeme {f : Lexeme → Nat → Rule β} (yes : ∀ l, Ends true n need' spare (f l))
    (no : Ends ahead n need' spare (f .finish)) :
    Ends ahead n need' spare fun levels => lexeme >>= fun l => f l levels := by
  intro s c ends few goes
  cases h : (s.next c).lexeme.isFinish with
  | true =>
    have same : (s.next c).lexeme = .finish := eq_finish h
    obtain ⟨run, fares, runs⟩ := no s c ends few goes
    exact ⟨run, fares, runs.mono fun levels l later => by rw [← same] at later; exact later⟩
  | false =>
    obtain ⟨run, fares, runs⟩ := yes (s.next c).lexeme s c ends few fun _ => h
    exact ⟨run, fares, runs⟩

theorem peek {f : Token → Nat → Rule β} (yes : ∀ t, Ends true n need' spare (f t))
    (no : ∀ t, t.lexeme = .finish → Ends ahead n need' spare (f t)) :
    Ends ahead n need' spare fun levels => peek >>= fun t => f t levels := by
  intro s c ends few goes
  cases h : (s.next c).lexeme.isFinish with
  | true =>
    obtain ⟨run, fares, runs⟩ := no (s.next c) (eq_finish h) s c ends few goes
    exact ⟨run, fares, runs⟩
  | false =>
    obtain ⟨run, fares, runs⟩ := yes (s.next c) s c ends few fun _ => h
    exact ⟨run, fares, runs⟩

/-- A look that finds something only where there is a token to pass over. -/
theorem sight {r : Rule Bool} {f : Bool → Nat → Rule β} (looks : Looks r)
    (found : ∀ (s : Setting) c, s.EndsText → r s c = .ok true c →
      (s.next c).lexeme.isFinish = false)
    (yes : Ends true n need' spare (f true)) (no : Ends ahead n need' spare (f false)) :
    Ends ahead n need' spare fun levels => r >>= fun b => f b levels := by
  intro s c ends few goes
  obtain ⟨b, seen⟩ := looks s c
  cases b with
  | true =>
    obtain ⟨run, fares, runs⟩ := yes s c ends few fun _ => found s c ends (seen s.limits)
    exact ⟨run, fares, runs.mono fun levels l later => (bind_ok (seen l)).trans later⟩
  | false =>
    obtain ⟨run, fares, runs⟩ := no s c ends few goes
    exact ⟨run, fares, runs.mono fun levels l later => (bind_ok (seen l)).trans later⟩

/-- A token that is seen is one to pass over. -/
theorem sees {t : Terminal} {f : Bool → Nat → Rule β} (yes : Ends true n need' spare (f true))
    (no : Ends ahead n need' spare (f false)) :
    Ends ahead n need' spare fun levels => sees t >>= fun b => f b levels :=
  sight (.sees t) (fun _ _ _ seen => Lexeme.goes_of_is (EStateM.Result.ok.inj seen).1) yes no

/-- Nothing is passed over unless the token is there. -/
theorem accept (t : Terminal) : Ends ahead n Bool.toNat spare fun _ => accept t := by
  unfold Grammar.accept
  refine sees ?_ (done rfl)
  exact advance.bind fun _ => done rfl

/-! ### Errors -/

theorem failExpecting (expected : String) :
    Ends ahead n need spare fun _ => (failExpecting expected : Rule α) :=
  look (.unexpected expected) fun e => fail e

theorem failInvalid (kind : SyntaxError.Kind) :
    Ends ahead n need spare fun _ => (failInvalid kind : Rule α) := by
  refine look .peek fun t => ?_
  split
  all_goals exact fail _

theorem expect (t : Terminal) : Ends ahead n (fun _ => 1) spare fun _ => expect t := by
  unfold Grammar.expect
  exact sees advance (failExpecting _)

theorem expectClosing (t : Terminal) (opener : Token) (kind : SyntaxError.Kind) :
    Ends ahead n (fun _ => 1) spare fun _ => expectClosing t opener kind := by
  unfold Grammar.expectClosing
  refine sees (advance.bind fun _ => done rfl) ?_
  exact look .atEnd fun b => ite (fun _ => fail _) fun _ => failExpecting _

theorem expectSemicolon : Ends ahead n (fun _ => 1) spare fun _ => expectSemicolon := by
  unfold Grammar.expectSemicolon
  refine peek (fun t => ?_) fun t finish => ?_
  · split
    · exact advance.bind fun _ => done rfl
    · exact failExpecting _
    · exact failExpecting _
    · exact look .lastStop fun _ => fail _
  · simp only [finish]
    exact look .lastStop fun _ => fail _

theorem expectName (expected : String) :
    Ends ahead n (fun _ => 1) spare fun _ => expectName expected := by
  unfold Grammar.expectName
  refine lexeme (fun l => ?_) (failExpecting _)
  split
  · exact advance
  · exact failExpecting _

theorem expectAnyName (expected : String) :
    Ends ahead n (fun _ => 1) spare fun _ => expectAnyName expected := by
  unfold Grammar.expectAnyName
  refine lexeme (fun l => ?_) (failExpecting _)
  split
  · exact advance
  · exact look .dialect fun d => ite (fun _ => advance) fun _ => failExpecting _
  · exact failExpecting _

/-! ### Bounds and nodes -/

theorem checkLimit (kind : LimitKind) (value : Nat) (span : Span) :
    Ends ahead n (fun _ => 0) spare fun _ => checkLimit kind value span := by
  refine still fun s c => ⟨(), c, rfl, rfl, rfl, (Amply.bound kind value).mono fun _ l wide => ?_⟩
  rw [checkLimit_apply, show (s.raised l).limits.check kind value span = .ok () from
    Limits.check_eq_ok_iff.2 wide]

theorem checkSize (size : Nat) (span : Span) :
    Ends ahead n (fun _ => 0) spare fun _ => checkSize size span :=
  checkLimit _ _ _

theorem recordNode (span : Span) : Ends ahead n (fun _ => 0) spare fun _ => recordNode span := by
  have count : Ends ahead n (fun _ => 0) spare fun _ =>
      (modify fun c => { c with usage := c.usage.addNode } : Rule Unit) :=
    still fun s c =>
      ⟨(), { c with usage := c.usage.addNode }, rfl, rfl, rfl, .of_all fun _ _ => rfl⟩
  have cursor : Looks (get : Rule Cursor) := fun s c => ⟨c, fun _ => rfl⟩
  unfold Grammar.recordNode
  exact count.bind fun _ => look cursor fun c => checkLimit _ _ _

theorem node {start : Span} {build : Span → α} (free : ∀ a, need a = 0) :
    Ends ahead n need spare fun _ => node start build := by
  unfold Grammar.node
  refine look (.spanFrom start) fun span => ?_
  exact (recordNode span).bind fun _ => done (free _)

/-! ### Loops -/

/-- A loop of which every pass that goes on passes over a token.  It may make as many passes as a
bound allows, and some are made already. -/
theorem loop {σ τ : Type} (F : Nat → Nat → σ → Rule β) (body : σ → Nat → Rule (β ⊕ τ))
    (next : σ → τ → σ) (gather : τ → β → β) (kind : LimitKind)
    (unroll : ∀ levels left x, F levels (left + 1) x = (body x levels >>= fun
      | .inl b => Pure.pure b
      | .inr t => F levels left (next x t) >>= fun b => Pure.pure (gather t b)))
    (hbody : ∀ x, Ends false n passing spare (body x)) (made : Nat) (x : σ) {s : Setting}
    {c : Cursor} (ends : s.EndsText) (few : c.rest.length ≤ n) :
    ∃ run, Fares (fun _ => 0) spare c run ∧
      Amply fun levels l => F levels (l.bound kind - made) x (s.raised l) c = run := by
  -- Induction on a bound for the tokens that are left.
  generalize hm : c.rest.length + 1 = m
  replace hm := Nat.le_of_eq hm
  induction m generalizing made x c with
  | zero => exact absurd hm (Nat.not_succ_le_zero _)
  | succ m ih =>
    obtain ⟨run, fares, runs⟩ := hbody x s c ends few nofun
    have room := Amply.bound kind (made + 1)
    have unrolled {levels : Nat} {l : Limits} (wide : made + 1 ≤ l.bound kind) :
        F levels (l.bound kind - made) x = (body x levels >>= fun
          | .inl b => Pure.pure b
          | .inr t => F levels (l.bound kind - (made + 1)) (next x t) >>= fun b =>
            Pure.pure (gather t b)) := by
      rw [← unroll, show l.bound kind - (made + 1) + 1 = l.bound kind - made by omega]
    cases run with
    | error e c' =>
      refine ⟨.error e c', fares.error, (room.and runs).mono fun levels l both => ?_⟩
      rw [unrolled both.1]
      exact bind_error both.2
    | ok o c' =>
      cases o with
      | inl b =>
        refine ⟨.ok b c', fares, (room.and runs).mono fun levels l both => ?_⟩
        rw [unrolled both.1]
        exact bind_ok both.2
      | inr t =>
        have on : c.index + 1 ≤ c'.index := fares.2
        have total := fares.1.index
        obtain ⟨run, fares', runs'⟩ :=
          ih (made + 1) (next x t) (Nat.le_trans fares.1.length_le few) (by omega)
        have all := (room.and runs).and runs'
        cases run with
        | error e c'' =>
          refine ⟨.error e c'', fares'.error.later fares.1, all.mono fun levels l h => ?_⟩
          rw [unrolled h.1.1]
          exact (bind_ok h.1.2).trans (bind_error h.2)
        | ok b c'' =>
          refine ⟨.ok (gather t b) c'', ⟨fares.1.trans fares'.1, ?_⟩, all.mono fun levels l h => ?_⟩
          · exact Nat.le_trans fares.1.index_le fares'.1.index_le
          · rw [unrolled h.1.1]
            exact (bind_ok h.1.2).trans (bind_ok h.2)

theorem repeating {look : α → Rule (β ⊕ γ)} {step : Nat → α → γ → Rule (β ⊕ α)}
    (hpass : ∀ a, Ends false n passing spare fun levels => look a >>= fun
      | .inl b => Pure.pure (.inl b)
      | .inr c => step levels a c) (a : α) :
    Ends ahead n (fun _ => 0) spare fun levels =>
      passes >>= fun p => repeating look (step levels) p a := by
  intro s c ends few _
  refine loop (fun levels => Grammar.repeating look (step levels)) _ (fun _ a => a) (fun _ b => b)
    LimitKind.iterations (fun levels left a => ?_) hpass 0 a ends few
  rw [Grammar.repeating, bind_assoc]
  refine bind_congr fun o => ?_
  cases o with
  | inl b => rfl
  | inr c =>
    refine bind_congr (x := step levels a c) fun o => ?_
    cases o with
    | inl b => rfl
    | inr a' => exact (bind_pure _).symm

theorem many {more : Rule Bool} {item : Nat → Nat → Rule (List α)}
    (hpass : ∀ size, Ends false n passing spare fun levels => manyPass more (item levels size))
    (size : Nat) :
    Ends ahead n (fun _ => 0) spare fun levels =>
      passes >>= fun p => many more (item levels) p size := by
  intro s c ends few _
  refine loop (fun levels => Grammar.many more (item levels)) _ (fun size xs => size + xs.length)
    (fun xs ys => xs ++ ys) LimitKind.iterations (fun levels left size => ?_) hpass 0 size ends few
  rw [Grammar.many, manyPass, bind_assoc]
  refine bind_congr fun b => ?_
  cases b with
  | false => rfl
  | true =>
    rw [if_pos rfl, if_pos rfl, map_eq_pure_bind, bind_assoc]
    rfl

/-- A loop that looks whether another item comes. -/
theorem manyAhead {more : Rule Bool} {item : Nat → Nat → Rule (List α)} (looks : Looks more)
    (found : ∀ (s : Setting) c, s.EndsText → more s c = .ok true c →
      (s.next c).lexeme.isFinish = false)
    (hitem : ∀ size, Ends true n (fun _ => 1) spare fun levels => item levels size) (size : Nat) :
    Ends ahead n (fun _ => 0) spare fun levels =>
      passes >>= fun p => Grammar.many more (item levels) p size := by
  refine many (fun size => ?_) size
  unfold manyPass
  refine sight looks found ?_ (done rfl)
  simp only [if_true, map_eq_pure_bind]
  exact (hitem size).bind fun xs => done rfl

theorem listed {more : Rule Bool} {item : Nat → Rule α} {spanOf : α → Span} (looks : Looks more)
    (hitem : Ends false n (fun _ => 0) spare item) (size : Nat) :
    Ends ahead n (fun _ => 0) spare fun levels =>
      passes >>= fun p => listed more (item levels) spanOf p size := by
  intro s c ends few _
  -- The loop says its bound in its own equations. What is left is that a pass is `listedPass`, and
  -- that a pass ends.
  refine loop (fun levels => Grammar.listed more (item levels) spanOf)
    (fun size levels => listedPass more (item levels) spanOf size) (fun size _ => size + 1)
    (fun x xs => x :: xs) LimitKind.iterations (fun levels left size => ?_) (fun size => ?_) 0 size
    ends few
  · rw [Grammar.listed, listedPass, bind_assoc]
    refine bind_congr fun b => ?_
    cases b with
    | false => rfl
    | true =>
      rw [if_pos rfl, if_pos rfl, bind_assoc]
      refine bind_congr fun x => ?_
      rw [bind_assoc]
      refine bind_congr fun _ => ?_
      rw [bind_assoc]
      refine bind_congr fun b => ?_
      cases b <;> rfl
  · unfold listedPass
    refine look looks fun b => ite (fun _ => ?_) fun _ => done rfl
    refine hitem.bind fun x => (checkSize _ _).bind fun _ => (accept _).bind fun b => ?_
    cases b with
    | false => exact done rfl
    | true => exact done rfl

theorem commaList {item : Nat → Rule α} {spanOf : α → Span} {k : Nat}
    (hitem : Ends ahead n (fun _ => k) spare item) (again : Ends false n (fun _ => 0) spare item) :
    Ends ahead n (fun _ => k) spare fun levels => commaList (item levels) spanOf := by
  -- Behind a comma a token has been passed over, so the further items need none of what the first
  -- one has.
  have tail : Ends false n (fun _ => 0) spare fun levels =>
      limits >>= fun l => commaTail (item levels) spanOf (l.maxCollectionSize - 1) := by
    intro s c ends few _
    refine loop (fun levels left (_ : Unit) => commaTail (item levels) spanOf left)
      (fun _ levels => commaPass (item levels)) (fun _ _ => ()) (fun x xs => x :: xs)
      LimitKind.collectionSize (fun levels left _ => ?_) (fun _ => ?_) 1 () ends few
    · rw [commaTail, commaPass, bind_assoc]
      refine bind_congr fun b => ?_
      cases b with
      | false => rfl
      | true =>
        rw [if_pos rfl, if_pos rfl, map_eq_pure_bind, bind_assoc]
        rfl
    · unfold commaPass
      simp only [map_eq_pure_bind]
      refine (accept _).bind fun b => ?_
      cases b with
      | false => exact done rfl
      | true =>
        simp only [if_true]
        exact again.bind fun x => done rfl
  unfold Grammar.commaList
  refine hitem.bind fun x => ?_
  have rest : Ends false n (fun _ => k - k) spare fun levels =>
      (limits >>= fun l => commaTail (item levels) spanOf (l.maxCollectionSize - 1)) >>= fun xs =>
        (Pure.pure (x :: xs) : Rule (List α)) :=
    tail.bind fun xs => done (by omega)
  simpa only [bind_assoc] using rest

/-- A step that always passes over a token cannot be repeated more often than there are tokens: it
is not the number of passes that ends the loop. -/
theorem consuming {step : Nat → α → Rule (Option α)}
    (hstep : ∀ a, Ends false n (fun o => o.isSome.toNat) spare fun levels => step levels a) (a : α)
    {s : Setting} {c : Cursor} (ends : s.EndsText) (few : c.rest.length ≤ n) :
    ∃ run, Fares (fun _ => 0) spare c run ∧ Amply fun levels l => ∀ fuel, c.rest.length < fuel →
      consuming (step levels) fuel a (s.raised l) c = run := by
  generalize hm : c.rest.length = m
  -- Strong induction on the tokens that are left, since a step may take several.
  induction m using Nat.strongRecOn generalizing a c with
  | ind m ih =>
    obtain ⟨run, fares, runs⟩ := hstep a s c ends few nofun
    -- with more fuel than tokens there is fuel for one more step
    have unrolled {levels fuel : Nat} (more : m < fuel) : Grammar.consuming (step levels) fuel a =
        step levels a >>= fun o =>
          o.elim (Pure.pure a) fun a' => Grammar.consuming (step levels) (fuel - 1) a' := by
      obtain ⟨left, rfl⟩ := Nat.exists_eq_add_of_lt more
      rw [Grammar.consuming]
      exact bind_congr fun o => by cases o <;> rfl
    cases run with
    | error e c' =>
      refine ⟨.error e c', fares.error, runs.mono fun levels l failed fuel more => ?_⟩
      rw [unrolled more]
      exact bind_error failed
    | ok o c' =>
      cases o with
      | none =>
        refine ⟨.ok a c', fares, runs.mono fun levels l stopped fuel more => ?_⟩
        rw [unrolled more]
        exact bind_ok stopped
      | some a' =>
        have less : c'.rest.length < m := fares.1.length_lt fares.2 (Nat.le_of_eq hm)
        obtain ⟨run, fares', runs'⟩ :=
          ih c'.rest.length less a' (Nat.le_trans fares.1.length_le few) rfl
        refine ⟨run, fares'.later fares.1, (runs.and runs').mono fun levels l both fuel more => ?_⟩
        rw [unrolled more]
        exact (bind_ok both.1).trans (both.2 _ (by omega))

theorem whileTokens {step : Nat → α → Rule (Option α)}
    (hstep : ∀ a, Ends false n (fun o => o.isSome.toNat) spare fun levels => step levels a) (a : α) :
    Ends ahead n (fun _ => 0) spare fun levels => whileTokens (step levels) a := by
  intro s c ends few _
  obtain ⟨run, fares, runs⟩ := consuming hstep a ends few
  exact ⟨run, fares, runs.mono fun levels l loops => loops _ (Nat.lt_succ_self _)⟩

/-! ### Recovery -/

theorem skipTo (stops : Lexeme → Bool) (pastSemicolon : Bool) :
    Ends ahead n (fun _ => 0) spare fun _ => skipTo stops pastSemicolon := by
  unfold Grammar.skipTo
  refine repeating (fun _ => ?_) ()
  simp only [bind_assoc]
  refine lexeme (fun l => ?_) (done rfl)
  cases l.isFinish with
  | true => exact done rfl
  | false =>
    refine ite (fun _ => ?_) fun _ => ite (fun _ => done rfl) fun _ => ?_
    all_goals exact advance.bind fun _ => done rfl

/-- Once an error is recorded, at least one token is passed over.  If the rule that failed passed
over one, it is spared for the error; otherwise it is the token that is passed over now. -/
theorem resumeAfter {s : Setting} {c c' : Cursor} (ends : s.EndsText) (lenient : s.recovers = true)
    (goes : (s.next c).lexeme.isFinish = false) (kept : Kept true c c') (e : SyntaxError)
    (stops : Lexeme → Bool) (pastSemicolon : Bool) :
    ∃ run, Fares (fun _ => 1) false c run ∧
      Amply fun _ l => resumeAfter e c.index stops pastSemicolon (s.raised l) c' = run := by
  let noted : Cursor := { c' with errors := c'.errors ++ [e] }
  have report (l : Limits) : report e (s.raised l) c' = .ok () noted := rfl
  have skips : Ends false c'.rest.length (fun _ => 0) true fun _ =>
    Grammar.skipTo stops pastSemicolon := skipTo stops pastSemicolon
  obtain ⟨run, fares, runs⟩ := skips s noted ends (Nat.le_refl _) nofun
  cases run with
  | error f c₂ =>
    refine ⟨.error f c₂, ?_, runs.mono fun _ l failed =>
      (bind_ok (report l)).trans (bind_error failed)⟩
    cases f with
    | limit | endless => exact fares
    | unreadableDigits | infiniteDuration => trivial
    | grammar e =>
      obtain ⟨levels, l, failed⟩ := runs.holds
      exact absurd failed (Forgives.skipTo stops pastSemicolon lenient)
  | ok u c₂ =>
    have skipped : Kept true noted c₂ := fares.1
    have before : c.index ≤ c₂.index := Nat.le_trans kept.index_le skipped.index_le
    have resumes (l : Limits)
        (again : Grammar.skipTo stops pastSemicolon (s.raised l) noted = .ok u c₂) :
        Grammar.resumeAfter e c.index stops pastSemicolon (s.raised l) c' =
          (if (c₂.index == c.index && !(s.next c₂).lexeme.isFinish) = true then
              Grammar.advance >>= fun _ => Pure.pure ()
            else Pure.pure () : Rule Unit) (s.raised l) c₂ :=
      (bind_ok (report l)).trans (bind_ok again)
    by_cases still : c₂.index = c.index
    · -- nothing was passed over yet, and so the token that the rule began with is
      have index : c₂.index + c₂.rest.length = c.index + c.rest.length :=
        skipped.index.trans kept.index
      have same : c₂.rest = c.rest := (skipped.rest.trans kept.rest).eq_of_length (by omega)
      have here : s.next c₂ = s.next c := by rw [Setting.next, same, ← Setting.next]
      obtain ⟨t, tokens, ahead⟩ := ends.ahead goes
      have pass : Kept true c₂ (Triple.past c₂ t tokens) := .past (same.trans ahead)
      have on : c.index + 1 ≤ c₂.index + 1 := Nat.succ_le_succ before
      refine ⟨.ok () (Triple.past c₂ t tokens),
        ⟨kept.noted (skipped.trans pass) (Nat.ne_of_gt on), on⟩, runs.mono fun _ l again => ?_⟩
      rw [resumes l again, if_pos (by rw [still, here, goes, beq_self_eq_true]; rfl)]
      exact bind_ok (advance_cons (same.trans ahead))
    · refine ⟨.ok () c₂, ⟨kept.noted skipped still, Nat.lt_of_le_of_ne before (Ne.symm still)⟩,
        runs.mono fun _ l again => ?_⟩
      rw [resumes l again, beq_false_of_ne still]
      rfl

/-- What is dropped after an error passes over a token, too, and there are no more errors than
tokens. -/
theorem recovering {stops : Lexeme → Bool} {pastSemicolon : Bool}
    (h : Ends true n (fun _ => 1) true r) :
    Ends true n (fun _ => 1) false fun levels => recovering stops pastSemicolon (r levels) := by
  intro s c ends few goes
  obtain ⟨run, fares, runs⟩ := h s c ends few goes
  have runs : Amply fun levels l =>
      Grammar.recovering stops pastSemicolon (r levels) (s.raised l) c =
        recovered stops pastSemicolon c.index (s.raised l) run :=
    runs.mono fun levels l inner => by rw [recovering_apply, inner]
  cases run with
  | ok a c' => exact ⟨.ok (some a) c', ⟨fares.1.fair, fares.2⟩, runs⟩
  | error f c' =>
    cases f with
    | limit | endless => exact fares.elim
    | unreadableDigits => exact ⟨.error .unreadableDigits c', trivial, runs⟩
    | infiniteDuration => exact ⟨.error .infiniteDuration c', trivial, runs⟩
    -- Only errors of the grammar are recovered from; the others end the run as they are.
    | grammar e =>
      have kept : Kept true c c' := fares
      cases mode : s.recovers with
      | false =>
        refine ⟨.error (.grammar e) c', kept.fair, runs.mono fun levels l inner => inner.trans ?_⟩
        exact if_neg fun on => Bool.false_ne_true (mode.symm.trans on)
      | true =>
        obtain ⟨run, fares', runs'⟩ := resumeAfter ends mode (goes rfl) kept e stops pastSemicolon
        have lenient (l : Limits) : (s.raised l).recovers = true := mode
        cases run with
        | ok u c'' =>
          refine ⟨.ok none c'', fares', (runs.and runs').mono fun levels l both => both.1.trans ?_⟩
          rw [recovered, if_pos (lenient l), both.2]
        | error f c'' =>
          refine ⟨.error f c'', fares'.error, (runs.and runs').mono fun levels l both =>
            both.1.trans ?_⟩
          rw [recovered, if_pos (lenient l), both.2]

/-- A token that is passed over pays for the error that is recorded about it. -/
theorem charge {e : SyntaxError} {f : Token → Nat → Rule β}
    (hf : ∀ t, Ends false n (fun b => need' b - 1) false (f t)) :
    Ends true n need' false fun levels =>
      report e >>= fun _ => Grammar.advance >>= fun t => f t levels := by
  intro s c ends few goes
  obtain ⟨t, tokens, ahead⟩ := ends.ahead (goes rfl)
  have charged : Kept false c (Triple.past { c with errors := c.errors ++ [e] } t tokens) :=
    (Kept.refl true c).noted (.past ahead) (Nat.succ_ne_self _)
  obtain ⟨run, fares, runs⟩ := hf t s _ ends (Nat.le_trans charged.length_le few) nofun
  have on : c.index + (fun _ : Token => 1) t ≤ c.index + 1 := Nat.le_refl _
  refine ⟨run, .after charged on fares, runs.mono fun levels l later => ?_⟩
  have noted : report e (s.raised l) c = .ok () { c with errors := c.errors ++ [e] } := rfl
  have passed : Grammar.advance (s.raised l) { c with errors := c.errors ++ [e] } = .ok t _ :=
    advance_cons ahead
  exact (bind_ok noted).trans ((bind_ok passed).trans later)

end Ends

end Plc.Grammar

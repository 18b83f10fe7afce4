/-
Words taken down while a text is read.

A transcript says how the tokens that were passed over are taken down as words.  `Taken` is what
holds at a place of a reading: which words were taken down so far, whether an operand stands
last, and what is seen ahead.

* `Transcript.leaf_text`, `Transcript.leaf_stretch` — the words of one token, and of several;
* `Triple.pass`, `Triple.accept`, `Triple.expect` — what is taken down when a token is passed over.
-/
import Plc.Proofs.Grammar.Ahead
import Plc.Proofs.Token.Class
import Plc.Proofs.Yield.Tree

namespace Plc

open Grammar

theorem Token.sign_lexeme (t : Token) : t.sign.lexeme = t.lexeme := by
  unfold sign Word.sign
  split
  · next h =>
    split
    · rfl
    · exact h.symm
  · next h => exact h.symm
  · rfl

theorem Token.sign_name {t : Token} (h : t.lexeme = .name) : t.sign = .name t.text := by
  obtain ⟨l, text, span⟩ := t
  cases h
  rfl

namespace Terminal

/-- The reserved word or mark as it is taken down. -/
def word : Terminal → Word
  | .keyword k => .keyword k
  | .mark m => .mark m

@[simp] theorem word_keyword (k : Keyword) : (Terminal.keyword k).word = .keyword k := rfl

@[simp] theorem word_mark (m : Mark) : (Terminal.mark m).word = .mark m := rfl

/-- It is not written in literals. -/
def isPlain : Terminal → Bool
  | .keyword k => !k.isLiteral
  | .mark _ => true

theorem sign_eq {t : Token} {k : Terminal} (h : t.lexeme = k.lexeme) (plain : k.isPlain = true) :
    t.sign = k.word := by
  obtain ⟨l, text, span⟩ := t
  cases h
  cases k with
  | mark m => rfl
  | keyword k =>
    have other : k.isLiteral = false := by simpa [isPlain] using plain
    show (if k.isLiteral then _ else _) = _
    rw [other]
    rfl

end Terminal

/-- How the tokens of a text are taken down.  The text is read in a dialect without blocks, and the
reading ends at the first error. -/
structure Transcript where
  setting : Setting
  /-- The tokens of the text, its end left out. -/
  all : List Token
  cut : tokens setting.dialect setting.source = .ok (all ++ [setting.finish])
  strict : setting.recovers = false
  standard : setting.dialect = .generic ∨ setting.dialect = .rockwell
  /-- The words of a text without parts, if they are the words of an operand. -/
  leaf : String → List Word
  leaf_eq : ∀ text, (∀ w ∈ wordsOf setting.dialect text.toList, w.lexeme.isInOperand = true) →
    leaf text = wordsOf setting.dialect text.toList
  /-- What is left of words without signs. -/
  norm : List Word → List Word
  norm_nil : norm [] = []
  norm_concat : ∀ ws w, w.lexeme.is Mark.semicolon = false → w.lexeme.is Keyword.END_REPEAT = false →
    norm (ws ++ [w]) = norm ws ++ [w]

namespace Transcript

variable (x : Transcript)

/-- Every token may be part of a text without an error. -/
def IsSound : Prop := ∀ t ∈ x.all, t.lexeme.isSound = true

theorem mem_cut {t : Token} (ht : t ∈ x.all) : t ∈ x.all ++ [x.setting.finish] :=
  List.mem_append_left _ ht

/-- The token at the end of the text is no sound one. -/
theorem isFinish : x.setting.finish.lexeme.isFinish = true := by
  obtain ⟨-, -, -, -, ends⟩ := scans_of_tokens x.cut
  exact ends

/-- Only the token at the end ends the text. -/
theorem goes : ∀ t ∈ x.all, t.lexeme.isFinish = false := by
  obtain ⟨m, m', scans, -⟩ := scans_of_tokens x.cut
  exact scans.goes

/-- A dialect without blocks has no marks for names. -/
theorem plain : x.setting.dialect.quotedNames = false ∧ x.setting.dialect.localMark = false ∧
    x.setting.dialect.blocks = false ∧ x.setting.dialect.compoundAssignment = false := by
  obtain same | same := x.standard
  · rw [same]
    exact ⟨rfl, rfl, rfl, rfl⟩
  · rw [same]
    exact ⟨rfl, rfl, rfl, rfl⟩

theorem reserved {t : Token} (ht : t ∈ x.all) {k : Keyword} (word : t.lexeme = .keyword k) :
    x.setting.dialect.reserves k = true :=
  Token.reserved x.cut (x.mem_cut ht) word

/-- No name is quoted. -/
theorem unquoted {t : Token} (ht : t ∈ x.all) (n : String) : t.lexeme ≠ .quotedName n := by
  intro name
  have quoted := Token.quoted x.cut (x.mem_cut ht) name
  rw [x.plain.1] at quoted
  cases quoted

theorem dotless {t : Token} (ht : t ∈ x.all)
    (kind : t.lexeme = .name ∨ ∃ n, t.lexeme = .integer n) : '.' ∉ t.text.toList :=
  Token.dotless x.cut (x.mem_cut ht) kind

/-- The characters of a token that may be part of an operand are taken down as this token. -/
theorem leaf_text (sound : x.IsSound) {t : Token} (ht : t ∈ x.all)
    (operand : t.lexeme.isInOperand = true) : x.leaf t.text = [t.sign] := by
  obtain ⟨front, back, parts⟩ := List.append_of_mem ht
  have cut := x.cut
  have sound' := sound
  unfold IsSound at sound'
  rw [parts] at cut sound'
  have words := wordsOf_text cut sound'
  rw [x.leaf_eq _ ?_, words]
  rw [words]
  rintro w hw
  rwa [List.mem_singleton.1 hw, t.sign_lexeme]

/-- The characters from one token to another are taken down as the tokens there, when these may be
part of an operand. -/
theorem leaf_stretch (sound : x.IsSound) {front mid back : List Token} {first last : Token}
    {span : Span} (parts : x.all = front ++ (mid ++ back)) (hf : first ∈ mid.head?)
    (hl : last ∈ mid.getLast?) (start : span.start = first.span.start)
    (stop : span.stop = last.span.stop) (operand : ∀ t ∈ mid, t.lexeme.isInOperand = true) :
    x.leaf (String.ofList (span.text x.setting.source)) = mid.map Token.sign := by
  have cut := x.cut
  have sound' := sound
  unfold IsSound at sound'
  rw [parts] at cut sound'
  have words := wordsOf_stretch cut sound' hf hl start stop
  rw [x.leaf_eq _ ?_, String.toList_ofList, words]
  rw [String.toList_ofList, words]
  intro w hw
  obtain ⟨t, ht, rfl⟩ := List.mem_map.1 hw
  rw [t.sign_lexeme]
  exact operand t ht

theorem stop_le (sound : x.IsSound) {front mid back : List Token} {first last : Token}
    (parts : x.all = front ++ (mid ++ back)) (hf : first ∈ mid.head?) (hl : last ∈ mid.getLast?) :
    first.span.stop ≤ last.span.stop := by
  have cut := x.cut
  have sound' := sound
  unfold IsSound at sound'
  rw [parts] at cut sound'
  exact Token.stop_le cut sound' hf hl

/-- The words that some tokens are taken down as. -/
def words (ts : List Token) : List Word :=
  x.norm (withoutSigns false (ts.map Token.sign))

end Transcript

namespace Grammar

/-- What is seen ahead, one token sooner. -/
def cons (t : Token) (f : Nat → Token) : Nat → Token
  | 0 => t
  | n + 1 => f n

/-- The tokens before the cursor, and what is seen ahead of it. -/
structure At (x : Transcript) (ts : List Token) (A : (Nat → Token) → Prop) (s : Setting)
    (c : Cursor) : Prop where
  setting : s = x.setting
  parts : x.all = ts ++ c.rest
  sound : ∀ t ∈ ts, t.lexeme.isSound = true
  stop : ∀ t ∈ ts.getLast?, c.lastStop = t.span.stop
  ahead : A (s.ahead c)

/-- An operand stands last. -/
def endsOperand (ts : List Token) : Bool :=
  ts.getLast?.any (·.lexeme.endsOperand)

/-- The words taken down before the cursor, whether an operand stands last, and what is seen
ahead. -/
def Taken (x : Transcript) (ws : List Word) (operand : Bool) (A : (Nat → Token) → Prop) :
    Assertion :=
  fun s c => ∃ ts, At x ts A s c ∧ (x.IsSound → x.words ts = ws) ∧ endsOperand ts = operand

/-- Nothing is known of what is ahead. -/
def Any : (Nat → Token) → Prop := fun _ => True

/-- A token with the lexeme is taken down, after an operand or not. -/
def isKept (operand : Bool) (l : Lexeme) : Bool :=
  l.isSound && (operand || !l.is Mark.plus) && !l.is Mark.semicolon && !l.is Keyword.END_REPEAT

variable {x : Transcript} {ts : List Token} {ws : List Word} {b : Bool}
  {A B : (Nat → Token) → Prop}

namespace At

/-- No token stands before the cursor where the text begins. -/
theorem start : At x [] Any x.setting { rest := x.all } :=
  ⟨rfl, rfl, List.forall_mem_nil _, by rintro _ ⟨⟩, trivial⟩

variable {s : Setting} {c : Cursor}

theorem rest_ne_nil (h : At x ts A s c) (sound : ∀ f, A f → (f 0).lexeme.isSound = true) :
    c.rest ≠ [] := by
  intro none
  have known := sound _ h.ahead
  rw [show s.ahead c 0 = s.finish by rw [Setting.ahead, none]; rfl, h.setting] at known
  exact absurd x.isFinish (by simp [Lexeme.isSound_of_isFinish known])

theorem past {t : Token} {rest : List Token} (h : At x ts A s c) (hrest : c.rest = t :: rest)
    (sound : t.lexeme.isSound = true) :
    At x (ts ++ [t]) (fun f => A (cons t f)) s (Triple.past c t rest) where
  setting := h.setting
  parts := by
    rw [h.parts, hrest, List.append_assoc]
    rfl
  sound := by
    intro u hu
    obtain hu | hu := List.mem_append.1 hu
    · exact h.sound u hu
    · rwa [List.mem_singleton.1 hu]
  stop := by
    intro u hu
    rw [List.getLast?_concat] at hu
    cases hu
    rfl
  ahead := by
    -- What was seen from here is the token and what is seen behind it.
    have same : s.ahead c = cons t (s.ahead (Triple.past c t rest)) := by
      funext n
      cases n with
      | zero | succ n =>
        rw [Setting.ahead, hrest]
        rfl
    exact same ▸ h.ahead

theorem stable : Stable (At x ts A) := by
  intro s c c' rest stop h
  refine ⟨h.setting, rest ▸ h.parts, h.sound, stop ▸ h.stop, ?_⟩
  have same : s.ahead c' = s.ahead c := by
    funext n
    rw [Setting.ahead, rest]
    rfl
  exact same ▸ h.ahead

theorem advance (sound : ∀ f, A f → (f 0).lexeme.isSound = true) :
    Triple (At x ts A) advance fun t => At x (ts ++ [t]) fun f => A (cons t f) := by
  refine Triple.advance (fun s c h => h.rest_ne_nil sound) fun s c t rest h hrest => ?_
  have known := sound _ h.ahead
  rw [show s.ahead c 0 = t by rw [Setting.ahead, hrest]; rfl] at known
  exact h.past hrest known

/-- A reserved word that comes next is one of the dialect. -/
theorem reserved {k : Keyword} (h : At x ts A s c)
    (known : ∀ g, A g → (g 0).lexeme = .keyword k) : x.setting.dialect.reserves k = true := by
  have sound (g : Nat → Token) (hg : A g) : (g 0).lexeme.isSound = true := by
    rw [known g hg]
    rfl
  obtain ⟨t, rest, hrest⟩ := List.exists_cons_of_ne_nil (h.rest_ne_nil sound)
  have word := known _ h.ahead
  rw [Setting.ahead, hrest] at word
  have listed : t ∈ x.all := by
    rw [h.parts, hrest]
    simp
  exact x.reserved listed word

/-- All tokens were passed over where the text ends. -/
theorem all (h : At x ts A s c) (ends : (s.ahead c 0).lexeme.isFinish = true) : x.all = ts := by
  rw [h.parts]
  cases hrest : c.rest with
  | nil => exact List.append_nil ts
  | cons t rest =>
    have listed : t ∈ x.all := by
      rw [h.parts, hrest]
      simp
    rw [Setting.ahead, hrest, List.getD_cons_zero, x.goes t listed] at ends
    cases ends

end At

namespace Taken

variable {s : Setting} {c : Cursor}

theorem stable : Stable (Taken x ws b A) := by
  rintro s c c' rest stop ⟨ts, h, words, last⟩
  exact ⟨ts, At.stable rest stop h, words, last⟩

theorem weaken (h : Taken x ws b A s c) (hB : ∀ f, A f → B f) : Taken x ws b B s c := by
  obtain ⟨ts, ⟨setting, parts, sound, stop, ahead⟩, words, last⟩ := h
  exact ⟨ts, ⟨setting, parts, sound, stop, hB _ ahead⟩, words, last⟩

theorem any (h : Taken x ws b A s c) : Taken x ws b Any s c :=
  h.weaken fun _ _ => trivial

/-- What is seen ahead. -/
theorem fact {φ : Prop} (h : Taken x ws b A s c) (hφ : ∀ f, A f → φ) : φ := by
  obtain ⟨ts, h, -⟩ := h
  exact hφ _ h.ahead

theorem setting (h : Taken x ws b A s c) : s = x.setting := by
  obtain ⟨ts, h, -⟩ := h
  exact h.setting

theorem reserved {k : Keyword} (h : Taken x ws b A s c)
    (known : ∀ g, A g → (g 0).lexeme = .keyword k) : x.setting.dialect.reserves k = true := by
  obtain ⟨ts, h, -⟩ := h
  exact h.reserved known

/-- Words that are the same in a text without errors. -/
theorem congr {ws' : List Word} (h : Taken x ws b A s c) (same : x.IsSound → ws = ws') :
    Taken x ws' b A s c := by
  obtain ⟨ts, h, words, last⟩ := h
  exact ⟨ts, h, fun sound => (words sound).trans (same sound), last⟩

end Taken

/-! ### Tokens passed over -/

theorem endsOperand_signs (ts : List Token) :
    (ts.map Token.sign).getLast?.elim false (·.lexeme.endsOperand) = endsOperand ts := by
  rw [List.getLast?_map, endsOperand]
  cases ts.getLast? with
  | none => rfl
  | some u => simp [u.sign_lexeme]

theorem words_concat {t : Token} (kept : isKept (endsOperand ts) t.lexeme = true) :
    x.words (ts ++ [t]) = x.words ts ++ [t.sign] := by
  simp only [isKept, Bool.and_eq_true, Bool.or_eq_true, Bool.not_eq_true'] at kept
  obtain ⟨⟨⟨-, plus⟩, semicolon⟩, close⟩ := kept
  have stays : (t.sign.lexeme.is Mark.plus && !endsOperand ts) = false := by
    rw [t.sign_lexeme]
    obtain operand | other := plus
    · rw [operand, Bool.not_true, Bool.and_false]
    · rw [other, Bool.false_and]
  unfold Transcript.words
  rw [List.map_append, List.map_singleton, withoutSigns_concat, endsOperand_signs, stays]
  exact x.norm_concat _ _ (t.sign_lexeme ▸ semicolon) (t.sign_lexeme ▸ close)

/-- A plus sign before an operand is not taken down. -/
theorem words_sign {t : Token} (plus : t.lexeme = .mark .plus) (opens : endsOperand ts = false) :
    x.words (ts ++ [t]) = x.words ts := by
  unfold Transcript.words
  rw [List.map_append, List.map_singleton, withoutSigns_concat, endsOperand_signs, opens,
    t.sign_lexeme, plus]
  exact congrArg x.norm (List.append_nil _)

/-- The words taken down up to the token that was passed over last. -/
def Past (x : Transcript) (ws : List Word) (t : Token) (A : (Nat → Token) → Prop) : Assertion :=
  fun s c => ∃ ts, At x ts A s c ∧ (x.IsSound → x.words ts = ws) ∧ t ∈ ts.getLast?

theorem Past.taken {t : Token} {s : Setting} {c : Cursor} (h : Past x ws t A s c) :
    Taken x ws t.lexeme.endsOperand A s c := by
  obtain ⟨ts, h, words, last⟩ := h
  refine ⟨ts, h, words, ?_⟩
  rw [endsOperand, Option.mem_def.1 last]
  rfl

theorem Taken.advance (kept : ∀ f, A f → isKept b (f 0).lexeme = true) :
    Triple (Taken x ws b A) advance fun t s c => t ∈ x.all ∧
      Past x (ws ++ [t.sign]) t (fun f => A (cons t f)) s c := by
  rintro s c t c' ⟨ts, h, words, last⟩ hrun
  have sound : ∀ f, A f → (f 0).lexeme.isSound = true := by
    intro f hf
    have := kept f hf
    simp only [isKept, Bool.and_eq_true] at this
    exact this.1.1.1
  have after : At x (ts ++ [t]) (fun f => A (cons t f)) s c' := At.advance sound h hrun
  have passes : isKept b t.lexeme = true := kept _ after.ahead
  refine ⟨?_, ts ++ [t], after, fun hs => ?_, List.getLast?_concat⟩
  · rw [after.parts]
    simp
  · rw [words_concat (last ▸ passes), words hs]

namespace Taken

variable {α β : Type}

theorem and (h : Taken x ws b A s c) (hB : B (s.ahead c)) :
    Taken x ws b (fun f => A f ∧ B f) s c := by
  obtain ⟨ts, ⟨setting, parts, sound, stop, ahead⟩, words, last⟩ := h
  exact ⟨ts, ⟨setting, parts, sound, stop, ahead, hB⟩, words, last⟩

theorem peek : Triple (Taken x ws b A) peek fun t => Taken x ws b fun f => A f ∧ f 0 = t :=
  Triple.peek.post fun _ _ _ h => h.1.and h.2

theorem lexemeAt (n : Nat) :
    Triple (Taken x ws b A) (lexemeAt n) fun l => Taken x ws b fun f => A f ∧ (f n).lexeme = l :=
  (Triple.lexemeAt n).post fun _ _ _ h => h.1.and (B := fun f => (f n).lexeme = _) h.2

theorem lexeme :
    Triple (Taken x ws b A) lexeme fun l => Taken x ws b fun f => A f ∧ (f 0).lexeme = l :=
  lexemeAt 0

theorem sees (k : Terminal) :
    Triple (Taken x ws b A) (sees k) fun r => Taken x ws b fun f => A f ∧ (f 0).lexeme.is k = r :=
  (Triple.sees k).post fun _ _ _ h => h.1.and (B := fun f => (f 0).lexeme.is k = _) h.2

theorem dialect {f : Dialect → Rule β} {Q : β → Assertion}
    (hf : Triple (Taken x ws b A) (f x.setting.dialect) Q) :
    Triple (Taken x ws b A) (Grammar.dialect >>= f) Q :=
  Triple.dialect.bind fun _ => .given (fun _ _ h => h.2.trans (congrArg Setting.dialect h.1.setting))
    fun same => same ▸ hf.imp fun _ _ h => h.1

/-- A node is built of what was read. -/
theorem node (start : Span) {build : Span → α} {ws' : α → List Word}
    (same : x.IsSound → ∀ span, ws = ws' (build span)) :
    Triple (Taken x ws b A) (Grammar.node start build) fun a => Taken x (ws' a) b Any :=
  stable.node start fun span _ _ h => h.any.congr fun sound => same sound span

/-- A token is passed over, and the reading goes on. -/
theorem pass {f : Token → Rule β} {Q : β → Assertion}
    (kept : ∀ g, A g → isKept b (g 0).lexeme = true)
    (hf : ∀ t ∈ x.all, Triple
      (Taken x (ws ++ [t.sign]) t.lexeme.endsOperand fun g => A (cons t g)) (f t) Q) :
    Triple (Taken x ws b A) (Grammar.advance >>= f) Q :=
  (Taken.advance kept).bind fun t => .given (fun _ _ h => h.1) fun ht =>
    (hf t ht).imp fun _ _ h => h.2.taken

/-- The token that was seen is passed over. -/
theorem passSeen (t : Token) {f : Token → Rule β} {Q : β → Assertion}
    (kept : isKept b t.lexeme = true) (seen : ∀ g, A g → g 0 = t)
    (hf : t ∈ x.all → Triple
      (Taken x (ws ++ [t.sign]) t.lexeme.endsOperand fun g => A (cons t g)) (f t) Q) :
    Triple (Taken x ws b A) (Grammar.advance >>= f) Q := by
  refine pass (fun g hg => by rwa [seen g hg]) fun u hu => ?_
  refine .given (φ := u = t) (fun s c h => h.fact fun g hg => seen _ hg) fun same => ?_
  subst same
  exact hf hu

/-- A reserved word or a mark that was seen is passed over. -/
theorem passTerminal (k : Terminal) {f : Token → Rule β} {Q : β → Assertion}
    (plain : k.isPlain = true) (kept : isKept b k.lexeme = true)
    (known : ∀ g, A g → (g 0).lexeme = k.lexeme)
    (hf : ∀ t, Triple (Taken x (ws ++ [k.word]) k.lexeme.endsOperand fun g => A (cons t g)) (f t) Q) :
    Triple (Taken x ws b A) (Grammar.advance >>= f) Q := by
  refine pass (fun g hg => known g hg ▸ kept) fun t ht => ?_
  refine .given (φ := t.lexeme = k.lexeme) (fun s c h => h.fact fun g hg => known _ hg) fun lexeme => ?_
  rw [Terminal.sign_eq lexeme plain, lexeme]
  exact hf t

/-- A plus sign before an operand is passed over. -/
theorem passSign {f : Rule β} {Q : β → Assertion}
    (known : ∀ g, A g → (g 0).lexeme = .mark .plus) (hf : Triple (Taken x ws false Any) f Q) :
    Triple (Taken x ws false A) (Grammar.advance >>= fun _ => f) Q := by
  refine Triple.bind (R := fun _ => Taken x ws false Any) ?_ fun _ => hf
  rintro s c t c' ⟨ts, h, words, last⟩ hrun
  have after : At x (ts ++ [t]) (fun g => A (cons t g)) s c' :=
    At.advance (fun g hg => by rw [known g hg]; rfl) h hrun
  have plus : t.lexeme = .mark .plus := known _ after.ahead
  refine ⟨ts ++ [t], ⟨after.setting, after.parts, after.sound, after.stop, trivial⟩, fun hs => ?_, ?_⟩
  · rw [words_sign plus last, words hs]
  · rw [endsOperand, List.getLast?_concat, Option.any_some, plus]
    rfl

theorem accept (k : Terminal) (plain : k.isPlain = true) (kept : isKept b k.lexeme = true) :
    Triple (Taken x ws b A) (Grammar.accept k) fun r =>
      cond r (Taken x (ws ++ [k.word]) k.lexeme.endsOperand Any) (Taken x ws b A) := by
  refine (sees k).bind fun r => .ite (fun yes => ?_) fun no => ?_
  · subst yes
    refine passTerminal k plain kept (fun g hg => Terminal.is_lexeme hg.2) fun t => ?_
    exact .pure fun s c h => h.any
  · rw [Bool.not_eq_true] at no
    subst no
    exact .pure fun s c h => h.weaken fun g hg => hg.1

theorem expect (k : Terminal) (plain : k.isPlain = true) (kept : isKept b k.lexeme = true) :
    Triple (Taken x ws b A) (Grammar.expect k) fun _ =>
      Taken x (ws ++ [k.word]) k.lexeme.endsOperand Any := by
  refine (sees k).bind fun r => .ite (fun yes => ?_) fun _ => .failExpecting _
  subst yes
  have pass : Triple (Taken x ws b fun g => A g ∧ (g 0).lexeme.is k = true)
      (Grammar.advance >>= Pure.pure) fun _ => Taken x (ws ++ [k.word]) k.lexeme.endsOperand Any :=
    passTerminal k plain kept (fun g hg => Terminal.is_lexeme hg.2) fun t =>
      Triple.pure fun s c h => h.any
  rwa [bind_pure] at pass

theorem expectClosing (k : Terminal) (opener : Token) (kind : SyntaxError.Kind)
    (plain : k.isPlain = true) (kept : isKept b k.lexeme = true) :
    Triple (Taken x ws b A) (Grammar.expectClosing k opener kind) fun _ =>
      Taken x (ws ++ [k.word]) k.lexeme.endsOperand Any := by
  refine (sees k).bind fun r => .ite (fun yes => ?_) fun _ => ?_
  · subst yes
    refine passTerminal k plain kept (fun g hg => Terminal.is_lexeme hg.2) fun t => ?_
    exact .pure fun s c h => h.any
  · exact Triple.bind_fails fun _ => .ite (fun _ => .fail _) fun _ => .failExpecting _

end Taken

/-! ### Beginning and end -/

/-- Nothing is taken down before the first token. -/
theorem Taken.start : Taken x [] false Any x.setting { rest := x.all } :=
  ⟨[], .start, fun _ => x.norm_nil, rfl⟩

/-- All tokens are taken down where the text ends. -/
theorem Taken.expectEnd : Triple (Taken x ws b A) Grammar.expectEnd fun _ _ _ =>
    x.IsSound ∧ x.words x.all = ws := by
  refine Triple.atEnd.bind fun ended => .ite (fun _ => .failExpecting _) fun no => ?_
  rw [Bool.not_eq_true, Bool.not_eq_false'] at no
  refine .pure fun s c ⟨⟨ts, h, words, _⟩, ends⟩ => ?_
  rw [no] at ends
  have all : x.all = ts := h.all ends
  have sound : x.IsSound := by
    rw [Transcript.IsSound, all]
    exact h.sound
  exact ⟨sound, all ▸ words sound⟩

/-- A rule that begins where no operand stands last, ends with one, and takes down the given
words. -/
def Yields (x : Transcript) {α : Type} (r : Rule α) (yield : α → List Word) : Prop :=
  ∀ ws, Triple (Taken x ws false Any) r fun a => Taken x (ws ++ yield a) true Any

end Grammar

end Plc

/-
Names of variables among the tokens that were passed over.

A name among tokens stands for a variable unless it is a member, part of a typed literal, the name of
an argument, or the name of a call that is no variable.  Where a dialect has annotations and regions,
the tokens are those of the code: neither the annotations nor the titles of regions are among them.
`Told` is what holds at a place of a reading: each name that was passed over and stands for a variable
is one of those told so far.

* `codeTokens` — the tokens of a text without annotations and titles;
* `StandsAsVariable` — where a name among tokens stands for a variable;
* `Passed.advance` — what one token more adds to the names.
-/
import Plc.Proofs.Mention.Names
import Plc.Proofs.Yield.Transcript

namespace Plc

open Grammar

/-! ### The tokens of the code -/

/-- The token is an annotation. -/
def Token.isPragma (t : Token) : Bool :=
  match t.lexeme with
  | .pragma _ => true
  | _ => false

/-- The tokens without the titles of regions; the next ones that begin before `stop` belong to a
title. -/
def withoutTitles (source : List Char) : Nat → List Token → List Token
  | _, [] => []
  | stop, t :: ts =>
    if t.span.start < stop then withoutTitles source stop ts
    else if t.lexeme.is Keyword.REGION then
      t :: withoutTitles source (Text.lineStop source t.span.stop) ts
    else t :: withoutTitles source 0 ts

/-- The tokens that the code of a text is made of, annotations and the titles of regions left out. -/
def codeTokens (source : List Char) (ts : List Token) : List Token :=
  withoutTitles source 0 (ts.filter fun t => !t.isPragma)

/-- The tokens that the statements of a text are read from.  Only a dialect with blocks has annotations
and regions. -/
def statementTokens (d : Dialect) (source : List Char) : Except Fault (List Token) :=
  (tokens d source).map fun ts => if d.blocks then codeTokens source ts else ts

theorem withoutTitles_sublist (source : List Char) (stop : Nat) (ts : List Token) :
    (withoutTitles source stop ts).Sublist ts := by
  induction ts generalizing stop with
  | nil => exact List.Sublist.refl _
  | cons t ts ih =>
    unfold withoutTitles
    split
    · exact (ih _).cons t
    · split <;> exact (ih _).cons_cons t

/-- No title begins at a token that opens no region. -/
theorem withoutTitles_cons {source : List Char} {t : Token} (ts : List Token)
    (other : t.lexeme ≠ .keyword .REGION) :
    withoutTitles source 0 (t :: ts) = t :: withoutTitles source 0 ts := by
  rw [withoutTitles, if_neg (Nat.not_lt_zero _), if_neg fun region => other (Terminal.is_lexeme region)]

theorem withoutTitles_none {source : List Char} {ts : List Token}
    (other : ∀ t ∈ ts, t.lexeme ≠ .keyword .REGION) : withoutTitles source 0 ts = ts := by
  induction ts with
  | nil => rfl
  | cons t ts ih =>
    rw [withoutTitles_cons ts (other t List.mem_cons_self), ih fun u hu => other u (List.mem_cons_of_mem _ hu)]

/-- The token that comes first is no part of a title. -/
theorem head?_withoutTitles (source : List Char) (ts : List Token) :
    (withoutTitles source 0 ts).head? = ts.head? := by
  cases ts with
  | nil => rfl
  | cons t ts =>
    rw [withoutTitles, if_neg (Nat.not_lt_zero _)]
    split <;> rfl

theorem lineStop_le (source : List Char) {offset : Nat} (h : offset ≤ source.length) :
    Text.lineStop source offset ≤ source.length := by
  have short := (List.takeWhile_sublist (l := source.drop offset) (· != '\n')).length_le
  rw [List.length_drop] at short
  unfold Text.lineStop
  omega

/-- The end of the text belongs to no title. -/
theorem withoutTitles_finish {source : List Char} {ts : List Token} {stop : Nat}
    (within : ∀ t ∈ ts, t.span.stop ≤ source.length) (first : stop ≤ source.length) :
    withoutTitles source stop (ts ++ [Scanner.finish source.length]) =
      withoutTitles source stop ts ++ [Scanner.finish source.length] := by
  induction ts generalizing stop with
  | nil =>
    have behind : ¬(Scanner.finish source.length).span.start < stop := Nat.not_lt_of_le first
    simp only [List.nil_append, withoutTitles, if_neg behind]
    rfl
  | cons t ts ih =>
    obtain ⟨here, later⟩ := List.forall_mem_cons.1 within
    rw [List.cons_append, withoutTitles, withoutTitles, ih later first, ih later (lineStop_le source here),
      ih later (Nat.zero_le _)]
    split
    · rfl
    · split <;> rfl

/-- Without blocks all tokens are those of the code. -/
theorem statementTokens_eq {d : Dialect} {source : List Char} {ts : List Token}
    (plain : d.blocks = false → d.pragmas = false) (cut : tokens d source = .ok ts) :
    statementTokens d source = .ok (codeTokens source ts) := by
  unfold statementTokens
  rw [cut]
  show Except.ok (if d.blocks = true then codeTokens source ts else ts) = _
  cases blocks : d.blocks with
  | true => rfl
  | false =>
    have noPragma (t : Token) (ht : t ∈ ts) : (!t.isPragma) = true := by
      rw [Bool.not_eq_true', Token.isPragma]
      split
      · next text known =>
        have has := Token.pragmas cut ht known
        rw [plain blocks] at has
        cases has
      · rfl
    have noRegion (t : Token) (ht : t ∈ ts) : t.lexeme ≠ .keyword .REGION := by
      intro word
      have reserved : d.blocks = true := Token.reserved cut ht word
      rw [blocks] at reserved
      cases reserved
    rw [codeTokens, List.filter_eq_self.2 noPragma, withoutTitles_none noRegion]
    rfl

-- neither the title of the region nor the annotation is read for statements
example : (statementTokens .scl "REGION x y\n\x7bz\x7d a := 1; END_REGION".toList).toOption.map
    (·.map Token.text) = some ["REGION", "a", ":=", "1", ";", "END_REGION", ""] := by
  decide +kernel

/-! ### Where a name stands for a variable -/

/-- Of the parentheses open after some tokens, the innermost first, whether each is that of a call,
right after a name or a member.  The tokens are in reverse. -/
def openCalls : List Token → List Bool
  | [] => []
  | t :: before =>
    if t.lexeme.is Mark.leftParen then before.head?.any (isMemberName ·.lexeme) :: openCalls before
    else if t.lexeme.is Mark.rightParen then (openCalls before).tail
    else openCalls before

/-- A token is a name where a variable stands: not after `.`, not beside `#`, not the name of an
argument inside a call, and before a parenthesis only if the name is declared.  The tokens before it
are in reverse. -/
structure StandsAsVariable (declared : List String) (before : List Token) (t : Token)
    (after : List Token) : Prop where
  name : t.lexeme = .name
  member : before.head?.any (·.lexeme.is Mark.dot) = false
  typed : before.head?.any (·.lexeme.is Mark.hash) = false
  type : after.head?.any (·.lexeme.is Mark.hash) = false
  argument : (openCalls before).head? = some true →
    after.head?.any (fun u => u.lexeme.is Mark.assign || u.lexeme.is Mark.arrow) = false
  callee : after.head?.any (·.lexeme.is Mark.leftParen) = true → t.text ∈ declared

theorem Lexeme.isName_iff {l : Lexeme} : l.isName = true ↔ l = .name := by
  cases l <;> simp [isName]

instance {declared : List String} {before after : List Token} {t : Token} :
    Decidable (StandsAsVariable declared before t after) :=
  decidable_of_iff (t.lexeme.isName = true ∧
      before.head?.any (·.lexeme.is Mark.dot) = false ∧
      before.head?.any (·.lexeme.is Mark.hash) = false ∧
      after.head?.any (·.lexeme.is Mark.hash) = false ∧
      ((openCalls before).head? = some true →
        after.head?.any (fun u => u.lexeme.is Mark.assign || u.lexeme.is Mark.arrow) = false) ∧
      (after.head?.any (·.lexeme.is Mark.leftParen) = true → t.text ∈ declared))
    ⟨fun ⟨name, member, typed, type, argument, callee⟩ =>
        ⟨Lexeme.isName_iff.1 name, member, typed, type, argument, callee⟩,
      fun h => ⟨Lexeme.isName_iff.2 h.name, h.member, h.typed, h.type, h.argument, h.callee⟩⟩

/-- Inside a call no variable stands before `:=` or `=>`. -/
theorem StandsAsVariable.not_argument {declared : List String} {before after : List Token} {t : Token}
    (h : StandsAsVariable declared before t after) (inside : (openCalls before).head? = some true)
    {m : Mark} (mark : m = .assign ∨ m = .arrow) : after.head?.any (·.lexeme.is m) = false := by
  have none := h.argument inside
  cases hu : after.head? with
  | none => rfl
  | some u =>
    rw [hu, Option.any_some, Bool.or_eq_false_iff] at none
    obtain rfl | rfl := mark
    · exact none.1
    · exact none.2

/-! ### Scripts -/

/-- A text that is read to its end, or to the first error. -/
structure Script where
  setting : Setting
  /-- The tokens of the text, its end left out. -/
  raw : List Token
  cut : tokens setting.dialect setting.source = .ok (raw ++ [setting.finish])
  strict : setting.recovers = false

namespace Script

variable (x : Script)

/-- The dialect of the text. -/
abbrev dialect : Dialect := x.setting.dialect

/-- The tokens of the code. -/
def all : List Token :=
  codeTokens x.setting.source x.raw

/-- The token at the end of the text is no sound one. -/
theorem isFinish : x.setting.finish.lexeme.isFinish = true := by
  obtain ⟨-, -, -, -, ends⟩ := scans_of_tokens x.cut
  exact ends

/-- Only the token at the end ends the text. -/
theorem goes : ∀ t ∈ x.raw, t.lexeme.isFinish = false := by
  obtain ⟨m, m', scans, -⟩ := scans_of_tokens x.cut
  exact scans.goes

theorem reserved {t : Token} (ht : t ∈ x.raw) {k : Keyword} (word : t.lexeme = .keyword k) :
    x.dialect.reserves k = true :=
  Token.reserved x.cut (List.mem_append_left _ ht) word

theorem dotless {t : Token} (ht : t ∈ x.raw) (name : t.lexeme = .name) : '.' ∉ t.text.toList :=
  Token.dotless x.cut (List.mem_append_left _ ht) (.inl name)

theorem mem_raw {t : Token} (ht : t ∈ x.all) : t ∈ x.raw :=
  List.mem_of_mem_filter ((withoutTitles_sublist ..).subset ht)

end Script

namespace Grammar

/-- Each of the first tokens of the code that stands for a variable is one of the names. -/
def Names (x : Script) (D : List String) (ts : List Token) (N : List String) : Prop :=
  ∀ before t after, x.all = before ++ t :: after → before.length < ts.length →
    StandsAsVariable D before.reverse t after → t.text ∈ N

/-- The tokens of the code before the cursor, and what is seen ahead of it.  What is left begins
with no title. -/
structure Upto (x : Script) (ts : List Token) (A : (Nat → Token) → Prop) (s : Setting)
    (c : Cursor) : Prop where
  setting : s = x.setting
  parts : x.all = ts ++ withoutTitles x.setting.source 0 c.rest
  left : c.rest ⊆ x.raw
  ahead : A (s.ahead c)

variable {x : Script} {D N N' : List String} {calls : List Bool} {ts : List Token}
  {A B : (Nat → Token) → Prop} {L L' : List Token → Prop} {α β : Type}

namespace Upto

variable {s : Setting} {c : Cursor}

theorem stable : Stable (Upto x ts A) := by
  intro s c c' rest stop h
  have same : s.ahead c' = s.ahead c := by
    funext n
    rw [Setting.ahead, rest]
    rfl
  exact ⟨h.setting, rest ▸ h.parts, rest ▸ h.left, same ▸ h.ahead⟩

theorem weaken (h : Upto x ts A s c) (hA : ∀ f, A f → B f) : Upto x ts B s c :=
  ⟨h.setting, h.parts, h.left, hA _ h.ahead⟩

/-- A sound token is not the end of the text. -/
theorem exists_cons (h : Upto x ts A s c) (sound : ∀ f, A f → (f 0).lexeme.isSound = true) :
    ∃ t rest, c.rest = t :: rest ∧ s.ahead c 0 = t := by
  cases hrest : c.rest with
  | nil =>
    have known := sound _ h.ahead
    rw [show s.ahead c 0 = s.finish by rw [Setting.ahead, hrest]; rfl, h.setting] at known
    exact absurd x.isFinish (by simp [Lexeme.isSound_of_isFinish known])
  | cons t rest =>
    exact ⟨t, rest, rfl, by rw [Setting.ahead, hrest]; rfl⟩

/-- A reserved word that comes next is one of the dialect. -/
theorem reserved {k : Keyword} (h : Upto x ts A s c)
    (known : ∀ g, A g → (g 0).lexeme = .keyword k) : x.dialect.reserves k = true := by
  obtain ⟨t, rest, hrest, seen⟩ := h.exists_cons fun g hg => by rw [known g hg]; rfl
  have word := known _ h.ahead
  rw [seen] at word
  exact x.reserved (h.left (hrest ▸ List.mem_cons_self)) word

/-- All tokens were passed over where the text ends. -/
theorem all (h : Upto x ts A s c) (ends : (s.ahead c 0).lexeme.isFinish = true) : x.all = ts := by
  rw [h.parts]
  cases hrest : c.rest with
  | nil => exact List.append_nil ts
  | cons t rest =>
    rw [Setting.ahead, hrest, List.getD_cons_zero, x.goes t (h.left (hrest ▸ List.mem_cons_self))] at ends
    cases ends

/-- The token of the code that comes first is seen; at the end of the text no mark is. -/
theorem head?_any (h : Upto x ts A s c) (m : Mark) :
    (withoutTitles x.setting.source 0 c.rest).head?.any (·.lexeme.is m) =
      (s.ahead c 0).lexeme.is m := by
  rw [head?_withoutTitles, Setting.ahead]
  cases c.rest with
  | cons u rest => rfl
  | nil =>
    have ends := x.isFinish
    show false = s.finish.lexeme.is m
    rw [h.setting]
    cases hl : x.setting.finish.lexeme <;> rw [hl] at ends <;> first | rfl | cases ends

end Upto

theorem Names.mono (h : Names x D ts N) (sub : N ⊆ N') : Names x D ts N' :=
  fun before t after parts less stands => sub (h before t after parts less stands)

/-- One token more. -/
theorem Names.concat {t : Token} {rest : List Token} (h : Names x D ts N) (sub : N ⊆ N')
    (parts : x.all = ts ++ t :: rest)
    (new : StandsAsVariable D ts.reverse t rest → t.text ∈ N') : Names x D (ts ++ [t]) N' := by
  intro before u after parts' less stands
  rw [List.length_append, List.length_singleton, Nat.lt_succ_iff_lt_or_eq] at less
  -- the cut is at an earlier token, or at the new one
  obtain old | same := less
  · exact sub (h before u after parts' old stands)
  · obtain ⟨rfl, tail⟩ := List.append_inj (parts'.symm.trans parts) same
    obtain ⟨rfl, rfl⟩ := List.cons.inj tail
    exact new stands

/-- The names of the variables among the tokens before the cursor, which parentheses of calls are
open, what is known of these tokens, and what is seen ahead. -/
def Passed (x : Script) (D N : List String) (calls : List Bool) (L : List Token → Prop)
    (A : (Nat → Token) → Prop) : Assertion :=
  fun s c => ∃ ts, Upto x ts A s c ∧ openCalls ts.reverse = calls ∧ Names x D ts N ∧ L ts

/-- Nothing more is known of the tokens before the cursor. -/
def Told (x : Script) (D N : List String) (calls : List Bool) (A : (Nat → Token) → Prop) :
    Assertion :=
  Passed x D N calls (fun _ => True) A

namespace Passed

variable {s : Setting} {c : Cursor}

theorem stable : Stable (Passed x D N calls L A) := by
  rintro s c c' rest stop ⟨ts, h, known⟩
  exact ⟨ts, Upto.stable rest stop h, known⟩

theorem weaken (h : Passed x D N calls L A s c) (hL : ∀ ts, L ts → L' ts) (hA : ∀ f, A f → B f) :
    Passed x D N calls L' B s c := by
  obtain ⟨ts, place, opened, names, last⟩ := h
  exact ⟨ts, place.weaken hA, opened, names, hL _ last⟩

theorem told (h : Passed x D N calls L A s c) : Told x D N calls Any s c :=
  h.weaken (fun _ _ => trivial) fun _ _ => trivial

theorem mono (h : Passed x D N calls L A s c) (sub : N ⊆ N') : Passed x D N' calls L A s c := by
  obtain ⟨ts, place, opened, names, last⟩ := h
  exact ⟨ts, place, opened, names.mono sub, last⟩

theorem and (h : Passed x D N calls L A s c) (hB : B (s.ahead c)) :
    Passed x D N calls L (fun f => A f ∧ B f) s c := by
  obtain ⟨ts, ⟨setting, parts, left, ahead⟩, rest⟩ := h
  exact ⟨ts, ⟨setting, parts, left, ahead, hB⟩, rest⟩

/-- What is seen ahead. -/
theorem fact {φ : Prop} (h : Passed x D N calls L A s c) (hφ : ∀ f, A f → φ) : φ := by
  obtain ⟨ts, h, -⟩ := h
  exact hφ _ h.ahead

theorem setting (h : Passed x D N calls L A s c) : s = x.setting := by
  obtain ⟨ts, h, -⟩ := h
  exact h.setting

theorem reserved {k : Keyword} (h : Passed x D N calls L A s c)
    (known : ∀ g, A g → (g 0).lexeme = .keyword k) : x.dialect.reserves k = true := by
  obtain ⟨ts, h, -⟩ := h
  exact h.reserved known

/-- The reading ends at the first error. -/
theorem strict (h : Passed x D N calls L A s c) : s.recovers = false := by
  rw [h.setting, x.strict]

end Passed

/-- A token is passed over that opens no region.  A name that stands for a variable there is told. -/
theorem Passed.advance (sub : N ⊆ N') (sound : ∀ g, A g → (g 0).lexeme.isSound = true)
    (other : ∀ g, A g → (g 0).lexeme ≠ .keyword .REGION)
    (new : ∀ g ts after, A g → L ts → openCalls ts.reverse = calls →
      (∀ m : Mark, after.head?.any (·.lexeme.is m) = (g 1).lexeme.is m) →
      StandsAsVariable D ts.reverse (g 0) after → (g 0).text ∈ N') :
    Triple (Passed x D N calls L A) Grammar.advance fun t s c => ∃ ts,
      Upto x (ts ++ [t]) (fun g => A (cons t g)) s c ∧ openCalls ts.reverse = calls ∧
        Names x D (ts ++ [t]) N' ∧ L ts := by
  refine Triple.advance ?_ ?_
  · rintro s c ⟨ts, h, -⟩ none
    obtain ⟨t, rest, hrest, -⟩ := h.exists_cons sound
    rw [none] at hrest
    cases hrest
  · rintro s c t rest ⟨ts, h, opened, names, last⟩ hrest
    have ahead : s.ahead c = cons t (s.ahead (Triple.past c t rest)) := by
      funext n
      cases n with
      | zero | succ n =>
        rw [Setting.ahead, hrest]
        rfl
    have seen : s.ahead c 0 = t := by rw [ahead]; rfl
    -- the rest comes after the token that is passed over
    have parts := h.parts
    rw [hrest, withoutTitles_cons rest (seen ▸ other _ h.ahead)] at parts
    have after : Upto x (ts ++ [t]) (fun g => A (cons t g)) s (Triple.past c t rest) := by
      refine ⟨h.setting, ?_, fun u hu => h.left (hrest ▸ List.mem_cons_of_mem _ hu), ahead ▸ h.ahead⟩
      rw [parts, List.append_assoc]
      rfl
    refine ⟨ts, after, opened, names.concat sub parts fun stands => ?_, last⟩
    rw [← seen] at stands ⊢
    refine new _ ts _ h.ahead last opened (fun m => ?_) stands
    rw [ahead]
    exact after.head?_any m

/-! ### Passing tokens -/

/-- The parentheses open after a token that opens none. -/
def callsPast (l : Lexeme) (calls : List Bool) : List Bool :=
  if l.is Mark.rightParen then calls.tail else calls

theorem openCalls_concat {t : Token} (h : t.lexeme ≠ .mark .leftParen) :
    openCalls (ts ++ [t]).reverse = callsPast t.lexeme (openCalls ts.reverse) := by
  have other : t.lexeme.is Mark.leftParen = false := by
    rw [Bool.eq_false_iff]
    exact fun open_ => h (Terminal.is_lexeme open_)
  rw [List.reverse_append, List.reverse_singleton, List.singleton_append, openCalls, other,
    if_neg Bool.false_ne_true, callsPast]

/-- A token comes last, and something is known of those before it. -/
def EndsWith (L : List Token → Prop) (t : Token) (ts : List Token) : Prop :=
  ∃ front, ts = front ++ [t] ∧ L front

/-- The last token has the lexeme. -/
def Behind (l : Lexeme) (ts : List Token) : Prop := ∃ t ∈ ts.getLast?, t.lexeme = l

theorem EndsWith.behind {t : Token} (h : EndsWith L t ts) : Behind t.lexeme ts := by
  obtain ⟨front, rfl, -⟩ := h
  exact ⟨t, List.getLast?_concat, rfl⟩

theorem Behind.head?_any {l : Lexeme} (h : Behind l ts) (m : Mark) :
    ts.reverse.head?.any (·.lexeme.is m) = l.is m := by
  obtain ⟨t, ht, rfl⟩ := h
  rw [List.head?_reverse, Option.mem_def.1 ht, Option.any_some]

/-- The last token is a name or a member. -/
def endsMember (ts : List Token) : Bool :=
  ts.getLast?.any (isMemberName ·.lexeme)

theorem Behind.endsMember {l : Lexeme} (h : Behind l ts) : endsMember ts = isMemberName l := by
  obtain ⟨t, ht, rfl⟩ := h
  rw [Grammar.endsMember, Option.mem_def.1 ht, Option.any_some]

theorem EndsWith.endsMember {t : Token} (h : EndsWith L t ts) : endsMember ts = isMemberName t.lexeme :=
  h.behind.endsMember

/-- A token with the lexeme stands for no variable and opens neither a parenthesis nor a region. -/
def isQuiet : Lexeme → Bool
  | .name | .mark .leftParen | .keyword .REGION => false
  | l => l.isSound

theorem isSound_of_isQuiet {l : Lexeme} (h : isQuiet l = true) : l.isSound = true := by
  unfold isQuiet at h
  split at h
  · cases h
  · cases h
  · cases h
  · exact h

namespace Passed

/-- A token that opens neither a parenthesis nor a region is passed over. -/
theorem step (sub : N ⊆ N') (known : ∀ g, A g → (g 0).lexeme.isSound = true ∧
      (g 0).lexeme ≠ .mark .leftParen ∧ (g 0).lexeme ≠ .keyword .REGION)
    (new : ∀ g ts after, A g → L ts → openCalls ts.reverse = calls →
      (∀ m : Mark, after.head?.any (·.lexeme.is m) = (g 1).lexeme.is m) →
      StandsAsVariable D ts.reverse (g 0) after → (g 0).text ∈ N') :
    Triple (Passed x D N calls L A) Grammar.advance fun t =>
      Passed x D N' (callsPast t.lexeme calls) (EndsWith L t) fun g => A (cons t g) := by
  refine (advance sub (fun g hg => (known g hg).1) (fun g hg => (known g hg).2.2) new).post
    fun t s c ⟨ts, h, opened, names, last⟩ => ?_
  refine ⟨ts ++ [t], h, ?_, names, ts, rfl, last⟩
  have closed : t.lexeme ≠ .mark .leftParen := (known _ h.ahead).2.1
  rw [openCalls_concat closed, opened]

/-- The last token is one of the text. -/
theorem mem_raw {t : Token} {s : Setting} {c : Cursor} (h : Passed x D N calls (EndsWith L t) A s c) :
    t ∈ x.raw := by
  obtain ⟨ts, h, -, -, front, rfl, -⟩ := h
  refine x.mem_raw ?_
  rw [h.parts]
  simp

/-- A token that is neither a name nor an opening parenthesis, and opens no region, is passed over. -/
theorem quiet (quiet : ∀ g, A g → isQuiet (g 0).lexeme = true) :
    Triple (Passed x D N calls L A) Grammar.advance fun t =>
      Passed x D N (callsPast t.lexeme calls) (EndsWith L t) fun g => A (cons t g) := by
  refine step (List.Subset.refl _) (fun g hg => ⟨isSound_of_isQuiet (quiet g hg), fun same => ?_, fun same => ?_⟩)
    fun g ts after hg _ _ _ stands => ?_
  · have silent := quiet g hg
    rw [same] at silent
    cases silent
  · have silent := quiet g hg
    rw [same] at silent
    cases silent
  · have silent := quiet g hg
    rw [stands.name] at silent
    cases silent

/-- A name is passed over, and told if it stands for a variable. -/
theorem name (sub : N ⊆ N') (known : ∀ g, A g → (g 0).lexeme = .name)
    (new : ∀ g ts after, A g → L ts → openCalls ts.reverse = calls →
      (∀ m : Mark, after.head?.any (·.lexeme.is m) = (g 1).lexeme.is m) →
      StandsAsVariable D ts.reverse (g 0) after → (g 0).text ∈ N') :
    Triple (Passed x D N calls L A) Grammar.advance fun t =>
      Passed x D N' calls (EndsWith L t) fun g => A (cons t g) := by
  refine (step sub (fun g hg => ?_) new).post fun t s c h => ?_
  · rw [known g hg]
    exact ⟨rfl, nofun, nofun⟩
  · have isName : t.lexeme = .name := h.fact fun g hg => known _ hg
    rwa [isName] at h

/-- A parenthesis is opened; it is that of a call if a name or a member stands before it. -/
theorem opens {b : Bool} (known : ∀ g, A g → (g 0).lexeme = .mark .leftParen)
    (last : ∀ ts, L ts → endsMember ts = b) :
    Triple (Passed x D N calls L A) Grammar.advance fun _ => Told x D N (b :: calls) Any := by
  refine (advance (List.Subset.refl N) (fun g hg => by rw [known g hg]; rfl)
    (fun g hg => by rw [known g hg]; exact nofun) fun g ts after hg _ _ _ stands => ?_).post
      fun t s c ⟨ts, h, opened, names, before⟩ => ?_
  · have named := stands.name
    rw [known g hg] at named
    cases named
  · have parenthesis : t.lexeme = .mark .leftParen := known _ h.ahead
    have opened' : openCalls (ts ++ [t]).reverse = b :: calls := by
      rw [List.reverse_append, List.reverse_singleton, List.singleton_append, openCalls, parenthesis,
        if_pos (by rfl), List.head?_reverse, opened]
      exact congrArg (· :: calls) (last ts before)
    exact Passed.told (L := fun _ => True) ⟨ts ++ [t], h, opened', names, trivial⟩

theorem peek : Triple (Passed x D N calls L A) peek
    fun t => Passed x D N calls L fun f => A f ∧ f 0 = t :=
  Triple.peek.post fun _ _ _ h => h.1.and h.2

theorem lexemeAt (n : Nat) : Triple (Passed x D N calls L A) (lexemeAt n)
    fun l => Passed x D N calls L fun f => A f ∧ (f n).lexeme = l :=
  (Triple.lexemeAt n).post fun _ _ _ h => h.1.and (B := fun f => (f n).lexeme = _) h.2

theorem lexeme : Triple (Passed x D N calls L A) lexeme
    fun l => Passed x D N calls L fun f => A f ∧ (f 0).lexeme = l :=
  lexemeAt 0

theorem sees (k : Terminal) : Triple (Passed x D N calls L A) (sees k)
    fun r => Passed x D N calls L fun f => A f ∧ (f 0).lexeme.is k = r :=
  (Triple.sees k).post fun _ _ _ h => h.1.and (B := fun f => (f 0).lexeme.is k = _) h.2

theorem dialect {f : Dialect → Rule β} {Q : β → Assertion}
    (hf : Triple (Passed x D N calls L A) (f x.setting.dialect) Q) :
    Triple (Passed x D N calls L A) (Grammar.dialect >>= f) Q :=
  Triple.dialect.bind fun _ => .given (fun _ _ h => h.2.trans (congrArg Setting.dialect h.1.setting))
    fun same => same ▸ hf.imp fun _ _ h => h.1

/-- A node is built of what was read; it has all names told. -/
theorem node (start : Span) {build : Span → α} {names : α → List String}
    (all : ∀ span, N ⊆ N' ++ names (build span)) :
    Triple (Passed x D N calls L A) (Grammar.node start build)
      fun a => Told x D (N' ++ names a) calls Any :=
  stable.node start fun span _ _ h => h.told.mono (all span)

/-- A token that was seen is passed over. -/
theorem passQuiet (l : Lexeme) {f : Token → Rule β} {Q : β → Assertion} (silent : isQuiet l = true)
    (known : ∀ g, A g → (g 0).lexeme = l)
    (hf : ∀ t, Triple (Passed x D N (callsPast l calls) (Behind l) fun g => A (cons t g)) (f t) Q) :
    Triple (Passed x D N calls L A) (Grammar.advance >>= f) Q := by
  refine (quiet fun g hg => known g hg ▸ silent).bind fun t => ?_
  refine .given (φ := t.lexeme = l) (fun s c h => h.fact fun g hg => known _ hg) fun same => ?_
  rw [same]
  exact (hf t).imp fun s c h => h.weaken (fun ts after => same ▸ after.behind) fun _ h => h

theorem accept (k : Terminal) (silent : isQuiet k.lexeme = true) :
    Triple (Passed x D N calls L A) (Grammar.accept k) fun r =>
      cond r (Passed x D N (callsPast k.lexeme calls) (Behind k.lexeme) Any)
        (Passed x D N calls L A) := by
  refine (sees k).bind fun r => .ite (fun yes => ?_) fun no => ?_
  · subst yes
    refine passQuiet k.lexeme silent (fun g hg => Terminal.is_lexeme hg.2) fun t => ?_
    exact .pure fun s c h => h.weaken (fun _ h => h) fun _ _ => trivial
  · rw [Bool.not_eq_true] at no
    subst no
    exact .pure fun s c h => h.weaken (fun _ h => h) fun _ hg => hg.1

theorem expect (k : Terminal) (silent : isQuiet k.lexeme = true) :
    Triple (Passed x D N calls L A) (Grammar.expect k) fun _ =>
      Passed x D N (callsPast k.lexeme calls) (Behind k.lexeme) Any := by
  refine (sees k).bind fun r => .ite (fun yes => ?_) fun _ => .failExpecting _
  subst yes
  have pass : Triple (Passed x D N calls L fun g => A g ∧ (g 0).lexeme.is k = true)
      (Grammar.advance >>= Pure.pure) fun _ =>
        Passed x D N (callsPast k.lexeme calls) (Behind k.lexeme) Any :=
    passQuiet k.lexeme silent (fun g hg => Terminal.is_lexeme hg.2) fun t =>
      Triple.pure fun s c h => h.weaken (fun _ h => h) fun _ _ => trivial
  rwa [bind_pure] at pass

theorem expectClosing (k : Terminal) (opener : Token) (kind : SyntaxError.Kind)
    (silent : isQuiet k.lexeme = true) :
    Triple (Passed x D N calls L A) (Grammar.expectClosing k opener kind) fun _ =>
      Passed x D N (callsPast k.lexeme calls) (Behind k.lexeme) Any := by
  refine (sees k).bind fun r => .ite (fun yes => ?_) fun _ => ?_
  · subst yes
    refine passQuiet k.lexeme silent (fun g hg => Terminal.is_lexeme hg.2) fun t => ?_
    exact .pure fun s c h => h.weaken (fun _ h => h) fun _ _ => trivial
  · exact Triple.bind_fails fun _ => .ite (fun _ => .fail _) fun _ => .failExpecting _

theorem expectOpening {b : Bool} (last : ∀ ts, L ts → endsMember ts = b) :
    Triple (Passed x D N calls L A) (Grammar.expect Mark.leftParen) fun _ =>
      Told x D N (b :: calls) Any := by
  refine (sees Mark.leftParen).bind fun r => .ite (fun yes => ?_) fun _ => .failExpecting _
  subst yes
  exact opens (fun g hg => Terminal.is_lexeme hg.2) last

end Passed

/-- A rule that tells the names of its result, wherever it begins, and leaves the parentheses as they
are. -/
def Tells (x : Script) (D : List String) (r : Rule α) (names : α → List String) : Prop :=
  ∀ N calls, Triple (Told x D N calls Any) r fun a => Told x D (N ++ names a) calls Any

end Grammar

end Plc

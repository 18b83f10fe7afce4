/-
Semicolons that are taken down, and those that are not.

A semicolon that ends a statement is taken down.  One that may be left out is not: after the word
that closes a construct, and between a condition and `END_REPEAT`.

* `Between` — what holds between two statements;
* `expectSemicolon_taken`, `endConstruct_taken`, `endRepeat_taken` — the ends of statements.
-/
import Plc.Grammar.Stmt
import Plc.Proofs.Yield.Transcript

namespace Plc.Grammar

variable {x : Transcript} {ts : List Token} {ws : List Word} {b : Bool}
  {A B : (Nat → Token) → Prop} {α β : Type}

/-! ### What the last word says -/

/-- The last word that is taken down, when no semicolon is left out. -/
def lastWord (ts : List Token) : Option Word :=
  (withoutSigns false (ts.map Token.sign)).getLast?

theorem lastWord_concat {t : Token} (plus : t.lexeme.is Mark.plus = false) :
    lastWord (ts ++ [t]) = some t.sign := by
  rw [lastWord, List.map_append, List.map_singleton, withoutSigns_concat, t.sign_lexeme, plus]
  exact List.getLast?_concat

theorem lastWord_of_getLast? {t : Token} (last : t ∈ ts.getLast?)
    (plus : t.lexeme.is Mark.plus = false) : lastWord ts = some t.sign := by
  obtain ⟨us, rfl⟩ := List.getLast?_eq_some_iff.1 last
  exact lastWord_concat plus

/-- A construct was closed last. -/
def closes (ts : List Token) : Bool :=
  (lastWord ts).any (·.lexeme.closesConstruct)

theorem closes_of_getLast? {t : Token} (last : t ∈ ts.getLast?)
    (plus : t.lexeme.is Mark.plus = false) : closes ts = t.lexeme.closesConstruct := by
  rw [closes, lastWord_of_getLast? last plus, Option.any_some, t.sign_lexeme]

/-- The end of an operand is neither a mark that is left out nor the end of a construct. -/
theorem Lexeme.not_of_endsOperand {l : Lexeme} (h : l.endsOperand = true) :
    l.is Mark.plus = false ∧ l.is Mark.semicolon = false ∧ l.closesConstruct = false := by
  cases l with
  | keyword k => cases k <;> first | exact ⟨rfl, rfl, rfl⟩ | cases h
  | mark m => cases m <;> first | exact ⟨rfl, rfl, rfl⟩ | cases h
  | _ => exact ⟨rfl, rfl, rfl⟩

theorem lastWord_of_endsOperand (h : endsOperand ts = true) :
    ∃ w, lastWord ts = some w ∧ w.lexeme.endsOperand = true := by
  unfold endsOperand at h
  cases last : ts.getLast? with
  | none =>
    rw [last] at h
    cases h
  | some t =>
    rw [last, Option.any_some] at h
    refine ⟨t.sign, lastWord_of_getLast? last (Lexeme.not_of_endsOperand h).1, ?_⟩
    rwa [t.sign_lexeme]

theorem closes_of_endsOperand (h : endsOperand ts = true) : closes ts = false := by
  obtain ⟨w, last, ends⟩ := lastWord_of_endsOperand h
  rw [closes, last]
  exact (Lexeme.not_of_endsOperand ends).2.2

/-! ### Words with semicolons -/

section

variable (statements : x.norm = withoutOptional none)

include statements

theorem words_eq (ts : List Token) :
    x.words ts = withoutOptional none (withoutSigns false (ts.map Token.sign)) := by
  rw [Transcript.words, statements]

/-- A semicolon is taken down unless a construct was closed before it. -/
theorem words_semicolon {t : Token} (semicolon : t.lexeme = .mark .semicolon) :
    x.words (ts ++ [t]) = x.words ts ++ if closes ts then [] else [.mark .semicolon] := by
  have sign : t.sign = .mark .semicolon := Terminal.sign_eq (k := .mark .semicolon) semicolon rfl
  have signs : withoutSigns false ((ts ++ [t]).map Token.sign) =
      withoutSigns false (ts.map Token.sign) ++ [Word.mark .semicolon] := by
    rw [List.map_append, List.map_singleton, withoutSigns_concat, sign]
    rfl
  have left : isOptional (lastWord ts) (some (.mark .semicolon)) none = closes ts := by
    simp [isOptional, closes, Word.mark, Lexeme.is]
  rw [words_eq statements, words_eq statements, signs,
    withoutOptional_append none _ fun _ _ _ => rfl, Option.or_none, ← lastWord, withoutOptional,
    List.head?_nil, left]
  rfl

/-- A semicolon before `END_REPEAT` is not taken down. -/
theorem words_endRepeat {mid : List Token} {t : Token} (close : t.lexeme = .keyword .END_REPEAT)
    (operand : endsOperand ts = true)
    (semicolon : mid = [] ∨ ∃ u, mid = [u] ∧ u.lexeme = .mark .semicolon) :
    x.words (ts ++ (mid ++ [t])) = x.words ts ++ [.keyword .END_REPEAT] := by
  have sign : t.sign = .keyword .END_REPEAT := Terminal.sign_eq (k := .keyword .END_REPEAT) close rfl
  -- The condition ends with an operand, so its own last word is no semicolon that might be left
  -- out.
  obtain ⟨w, last, ends⟩ := lastWord_of_endsOperand operand
  have other (vs : List Word) : ∀ w ∈ (withoutSigns false (ts.map Token.sign)).getLast?,
      w.lexeme.is Mark.semicolon = true → vs.head?.any (·.lexeme.is Keyword.END_REPEAT) = false := by
    intro v hv semicolon
    obtain rfl := Option.some.inj (last.symm.trans hv)
    rw [(Lexeme.not_of_endsOperand ends).2.1] at semicolon
    cases semicolon
  have signs : withoutSigns false ((ts ++ (mid ++ [t])).map Token.sign) =
      withoutSigns false (ts.map Token.sign) ++ (mid.map Token.sign ++ [Word.keyword .END_REPEAT]) := by
    rw [← List.append_assoc, List.map_append, List.map_singleton, withoutSigns_concat, sign]
    obtain rfl | ⟨u, rfl, known⟩ := semicolon
    · rw [List.append_nil]
      rfl
    · have mark : u.sign = .mark .semicolon := Terminal.sign_eq (k := .mark .semicolon) known rfl
      rw [List.map_append, List.map_singleton, withoutSigns_concat, mark, List.append_assoc]
      rfl
  -- What is left is the semicolon behind the condition, if there is one.
  rw [words_eq statements, words_eq statements, signs, withoutOptional_append none _ (other _)]
  obtain rfl | ⟨u, rfl, known⟩ := semicolon
  · rfl
  · have mark : u.sign = .mark .semicolon := Terminal.sign_eq (k := .mark .semicolon) known rfl
    rw [List.map_singleton, mark, List.singleton_append, withoutOptional]
    have left : isOptional ((withoutSigns false (ts.map Token.sign)).getLast?.or none)
        (some (.mark .semicolon)) (some (.keyword .END_REPEAT)) = true := by
      simp [isOptional, Word.mark, Word.keyword, Lexeme.is]
    rw [List.head?_cons, left]
    rfl

end

/-! ### Between statements -/

/-- The words taken down where a semicolon may not be left out. -/
def Pending (x : Transcript) (ws : List Word) (A : (Nat → Token) → Prop) : Assertion :=
  fun s c => ∃ ts, At x ts A s c ∧ (x.IsSound → x.words ts = ws) ∧ closes ts = false

/-- The words taken down between two statements.  After the end of a construct no semicolon
comes. -/
def Between (x : Transcript) (ws : List Word) (A : (Nat → Token) → Prop) : Assertion :=
  fun s c => ∃ ts, At x ts A s c ∧ (x.IsSound → x.words ts = ws) ∧ endsOperand ts = false ∧
    (closes ts = true → (s.ahead c 0).lexeme.is Mark.semicolon = false)

variable {s : Setting} {c : Cursor}

theorem Between.taken (h : Between x ws A s c) : Taken x ws false A s c := by
  obtain ⟨ts, h, words, last, -⟩ := h
  exact ⟨ts, h, words, last⟩

/-- Where the text begins there is no statement yet. -/
theorem Between.start : Between x [] Any x.setting { rest := x.all } :=
  ⟨[], .start, fun _ => x.norm_nil, rfl, nofun⟩

theorem Between.any (h : Between x ws A s c) : Between x ws Any s c := by
  obtain ⟨ts, ⟨setting, parts, sound, stop, -⟩, rest⟩ := h
  exact ⟨ts, ⟨setting, parts, sound, stop, trivial⟩, rest⟩

theorem Between.and (h : Between x ws A s c) (hB : B (s.ahead c)) :
    Between x ws (fun f => A f ∧ B f) s c := by
  obtain ⟨ts, ⟨setting, parts, sound, stop, ahead⟩, rest⟩ := h
  exact ⟨ts, ⟨setting, parts, sound, stop, ahead, hB⟩, rest⟩

theorem Between.stable : Stable (Between x ws A) := by
  rintro s c c' rest stop ⟨ts, h, words, last, semicolon⟩
  refine ⟨ts, At.stable rest stop h, words, last, ?_⟩
  rw [Setting.ahead, rest]
  exact semicolon

/-- Where a statement begins with a semicolon, no construct was closed. -/
theorem Between.pending (h : Between x ws A s c)
    (semicolon : ∀ f, A f → (f 0).lexeme.is Mark.semicolon = true) : Pending x ws A s c := by
  obtain ⟨ts, h, words, -, other⟩ := h
  refine ⟨ts, h, words, ?_⟩
  have seen := semicolon _ h.ahead
  cases closed : closes ts with
  | false => rfl
  | true =>
    rw [other closed] at seen
    cases seen

/-- A semicolon ends what an operand stands last in. -/
theorem Taken.pending (h : Taken x ws true A s c) : Pending x ws A s c := by
  obtain ⟨ts, h, words, last⟩ := h
  exact ⟨ts, h, words, closes_of_endsOperand last⟩

/-- The words taken down where neither an operand nor the end of a construct stands last. -/
def Opened (x : Transcript) (ws : List Word) (A : (Nat → Token) → Prop) : Assertion :=
  fun s c => ∃ ts, At x ts A s c ∧ (x.IsSound → x.words ts = ws) ∧ endsOperand ts = false ∧
    closes ts = false

theorem Opened.between (h : Opened x ws A s c) : Between x ws Any s c := by
  obtain ⟨ts, ⟨setting, parts, sound, stop, -⟩, words, last, none⟩ := h
  refine ⟨ts, ⟨setting, parts, sound, stop, trivial⟩, words, last, fun closed => ?_⟩
  rw [none] at closed
  cases closed

theorem Opened.pending (h : Opened x ws A s c) : Pending x ws A s c := by
  obtain ⟨ts, h, words, -, none⟩ := h
  exact ⟨ts, h, words, none⟩

/-! ### Words that statements stand between -/

/-- Neither an operand nor a construct ends with the word, and it is no sign. -/
def opensStatements (k : Terminal) : Bool :=
  !k.lexeme.endsOperand && !k.lexeme.closesConstruct && !k.lexeme.is Mark.plus

/-- A reserved word or a mark that was seen is passed over. -/
theorem Opened.pass (k : Terminal) {f : Token → Rule β} {Q : β → Assertion}
    (plain : k.isPlain = true) (kept : isKept b k.lexeme = true) (opens : opensStatements k = true)
    (known : ∀ g, A g → (g 0).lexeme = k.lexeme)
    (hf : ∀ t, Triple (Opened x (ws ++ [k.word]) Any) (f t) Q) :
    Triple (Taken x ws b A) (advance >>= f) Q := by
  simp only [opensStatements, Bool.and_eq_true, Bool.not_eq_true'] at opens
  obtain ⟨⟨operand, construct⟩, plus⟩ := opens
  refine (Taken.advance fun g hg => known g hg ▸ kept).bind fun t => ?_
  refine (hf t).imp fun s c ⟨_, ts, h, words, last⟩ => ?_
  have lexeme : t.lexeme = k.lexeme := known _ h.ahead
  rw [Terminal.sign_eq lexeme plain] at words
  refine ⟨ts, ⟨h.setting, h.parts, h.sound, h.stop, trivial⟩, words, ?_, ?_⟩
  · rw [endsOperand, Option.mem_def.1 last, Option.any_some, lexeme, operand]
  · rw [closes_of_getLast? last (lexeme ▸ plus), lexeme, construct]

theorem Opened.expect (k : Terminal) (plain : k.isPlain = true) (kept : isKept b k.lexeme = true)
    (opens : opensStatements k = true) :
    Triple (Taken x ws b A) (expect k) fun _ => Opened x (ws ++ [k.word]) Any := by
  refine (Taken.sees k).bind fun r => .ite (fun yes => ?_) fun _ => .failExpecting _
  subst yes
  have pass : Triple (Taken x ws b fun g => A g ∧ (g 0).lexeme.is k = true) (advance >>= pure)
      fun _ => Opened x (ws ++ [k.word]) Any :=
    Opened.pass k plain kept opens (fun g hg => Terminal.is_lexeme hg.2) fun t =>
      Triple.pure fun s c h => h
  rwa [bind_pure] at pass

/-- A reserved word or a mark between statements that may be left out. -/
theorem Between.accept (k : Terminal) (plain : k.isPlain = true) (kept : isKept false k.lexeme = true)
    (opens : opensStatements k = true) :
    Triple (Between x ws A) (accept k) fun r =>
      cond r (Opened x (ws ++ [k.word]) Any) (Between x ws A) := by
  refine (Triple.sees k).bind fun r => .ite (fun yes => ?_) fun no => ?_
  · subst yes
    have pass : Triple (Taken x ws false fun f => (f 0).lexeme = k.lexeme)
        (advance >>= fun _ => pure true) fun r => cond r (Opened x (ws ++ [k.word]) Any) (Between x ws A) :=
      Opened.pass k plain kept opens (fun g hg => hg) fun t => .pure fun s c h => h
    exact pass.imp fun s c h => (h.1.taken.and (B := fun f => (f 0).lexeme = k.lexeme)
      (Terminal.is_lexeme h.2)).weaken fun f hf => hf.2
  · rw [Bool.not_eq_true] at no
    subst no
    exact .pure fun s c h => h.1

/-! ### Ends of statements -/

theorem closing_plain {close : Keyword} (closed : (Lexeme.keyword close).closesConstruct = true) :
    (Lexeme.keyword close).endsOperand = false ∧ (Terminal.keyword close).isPlain = true := by
  cases close <;> first | exact ⟨rfl, rfl⟩ | cases closed

section

variable (statements : x.norm = withoutOptional none)

include statements

/-- A semicolon is passed over and taken down. -/
theorem Pending.pass {f : Token → Rule β} {Q : β → Assertion}
    (known : ∀ g, A g → (g 0).lexeme = .mark .semicolon)
    (hf : ∀ t, Triple (Opened x (ws ++ [.mark .semicolon]) Any) (f t) Q) :
    Triple (Pending x ws A) (advance >>= f) Q := by
  refine Triple.bind (R := fun _ => Opened x (ws ++ [Word.mark .semicolon]) Any) ?_ hf
  rintro s c t c' ⟨ts, h, words, none⟩ hrun
  have after : At x (ts ++ [t]) (fun g => A (cons t g)) s c' :=
    At.advance (fun g hg => by rw [known g hg]; rfl) h hrun
  have lexeme : t.lexeme = .mark .semicolon := known _ after.ahead
  refine ⟨ts ++ [t], ⟨after.setting, after.parts, after.sound, after.stop, trivial⟩, fun hs => ?_, ?_, ?_⟩
  · rw [words_semicolon statements lexeme, none, words hs]
    rfl
  · rw [endsOperand, List.getLast?_concat, Option.any_some, lexeme]
    rfl
  · rw [closes_of_getLast? List.getLast?_concat (by rw [lexeme]; rfl), lexeme]
    rfl

theorem expectSemicolon_taken : Triple (Pending x ws A) expectSemicolon
    fun _ => Opened x (ws ++ [.mark .semicolon]) Any := by
  refine Triple.peek.bind fun t => ?_
  split
  · next semicolon =>
    refine Triple.imp (Pending.pass (A := fun f => (f 0).lexeme = .mark .semicolon) statements
      (fun g hg => hg) fun _ => .pure fun s c h => h) ?_
    rintro s c ⟨⟨ts, h, rest⟩, rfl⟩
    exact ⟨ts, ⟨h.setting, h.parts, h.sound, h.stop, semicolon⟩, rest⟩
  · exact .failExpecting _
  · exact .failExpecting _
  · exact Triple.bind_fails fun _ => .fail _

/-- A semicolon after the end of a construct may be left out. -/
theorem afterConstruct {t : Token} {close : Keyword} (known : t.lexeme = .keyword close)
    (closed : (Lexeme.keyword close).closesConstruct = true) :
    Triple (Past x ws t A) (accept Mark.semicolon) fun _ => Between x ws Any := by
  refine (Triple.sees _).bind fun r => .ite (fun yes => ?_) fun no => ?_
  · subst yes
    refine Triple.bind (R := fun _ => Between x ws Any) ?_ fun _ => .pure fun s c h => h
    rintro s c u c' ⟨⟨ts, h, words, last⟩, seen⟩ hrun
    have h : At x ts (fun g => (g 0).lexeme = .mark .semicolon) s c :=
      ⟨h.setting, h.parts, h.sound, h.stop, Terminal.is_lexeme seen⟩
    have after : At x (ts ++ [u]) (fun g => (cons u g 0).lexeme = .mark .semicolon) s c' :=
      At.advance (fun g hg => by rw [hg]; rfl) h hrun
    have lexeme : u.lexeme = .mark .semicolon := after.ahead
    -- The last token closes a construct, so the words do not change with the semicolon.
    have done : closes ts = true := by
      rw [closes_of_getLast? last (by rw [known]; rfl), known, closed]
    refine ⟨ts ++ [u], ⟨after.setting, after.parts, after.sound, after.stop, trivial⟩,
      fun hs => ?_, ?_, fun again => ?_⟩
    · rw [words_semicolon statements lexeme, done, if_pos rfl, List.append_nil, words hs]
    · rw [endsOperand, List.getLast?_concat, Option.any_some, lexeme]
      rfl
    · rw [closes_of_getLast? List.getLast?_concat (by rw [lexeme]; rfl), lexeme] at again
      cases again
  · rw [Bool.not_eq_true] at no
    subst no
    refine .pure fun s c h => ?_
    obtain ⟨⟨ts, h, words, last⟩, other⟩ := h
    refine ⟨ts, ⟨h.setting, h.parts, h.sound, h.stop, trivial⟩, words, ?_, fun _ => other⟩
    rw [endsOperand, Option.mem_def.1 last, Option.any_some, known]
    exact (closing_plain closed).1

/-- The end of a construct is taken down, but not the semicolon after it. -/
theorem endConstruct_taken {close : Keyword} (opener : Span)
    (closed : (Lexeme.keyword close).closesConstruct = true) (other : close ≠ .END_REPEAT) :
    Triple (Taken x ws b A) (endConstruct close opener)
      fun _ => Between x (ws ++ [.keyword close]) Any := by
  refine (Taken.sees close).bind fun r => .ite (fun yes => ?_) fun _ => ?_
  · subst yes
    have known (g : Nat → Token) (hg : A g ∧ (g 0).lexeme.is close = true) :
        (g 0).lexeme = .keyword close := Terminal.is_lexeme hg.2
    refine (Taken.advance fun g hg => ?_).bind fun t => ?_
    · rw [known g hg]
      simp [isKept, Lexeme.isSound, Lexeme.is, other]
    · refine .given (φ := t.lexeme = .keyword close) ?_ fun lexeme => ?_
      · rintro s c ⟨_, ts, h, -⟩
        exact known _ h.ahead
      · refine (Triple.imp (afterConstruct statements lexeme closed) fun s c h => h.2).bind fun _ => ?_
        rw [Terminal.sign_eq lexeme (closing_plain closed).2]
        exact .pure fun s c h => h
  · exact Triple.bind_fails fun _ => .ite (fun _ => .fail _) fun _ => .failExpecting _

/-- The semicolon between a condition and `END_REPEAT` is not taken down. -/
theorem endRepeat_taken (opener : Span) :
    Triple (Taken x ws true A) (do let _ ← accept Mark.semicolon; endConstruct .END_REPEAT opener)
      fun _ => Between x (ws ++ [.keyword .END_REPEAT]) Any := by
  -- the words so far, and the semicolon that waits for `END_REPEAT`
  let Waiting (A : (Nat → Token) → Prop) : Assertion := fun s c => ∃ ts mid, At x (ts ++ mid) A s c ∧
    (x.IsSound → x.words ts = ws) ∧ endsOperand ts = true ∧
    (mid = [] ∨ ∃ u, mid = [u] ∧ u.lexeme = .mark .semicolon)
  refine Triple.bind (R := fun _ => Waiting Any) ?_ fun _ => ?_
  · refine (Triple.sees _).bind fun r => .ite (fun yes => ?_) fun _ => ?_
    · subst yes
      refine Triple.bind (R := fun _ => Waiting Any) ?_ fun _ => .pure fun s c h => h
      rintro s c u c' ⟨⟨ts, h, words, last⟩, seen⟩ hrun
      have h : At x ts (fun g => (g 0).lexeme = .mark .semicolon) s c :=
        ⟨h.setting, h.parts, h.sound, h.stop, Terminal.is_lexeme seen⟩
      have after : At x (ts ++ [u]) (fun g => (cons u g 0).lexeme = .mark .semicolon) s c' :=
        At.advance (fun g hg => by rw [hg]; rfl) h hrun
      exact ⟨ts, [u], ⟨after.setting, after.parts, after.sound, after.stop, trivial⟩, words, last,
        .inr ⟨u, rfl, after.ahead⟩⟩
    · refine .pure fun s c ⟨⟨ts, h, words, last⟩, _⟩ => ⟨ts, [], ?_, words, last, .inl rfl⟩
      rw [List.append_nil]
      exact ⟨h.setting, h.parts, h.sound, h.stop, trivial⟩
  · refine (Triple.sees _).bind fun r => .ite (fun yes => ?_) fun _ => ?_
    · subst yes
      refine Triple.bind (R := fun t s c => t.lexeme = .keyword .END_REPEAT ∧
        Past x (ws ++ [Word.keyword .END_REPEAT]) t Any s c) ?_ fun t => ?_
      · rintro s c t c' ⟨⟨ts, mid, h, words, last, semicolon⟩, seen⟩ hrun
        have h : At x (ts ++ mid) (fun g => (g 0).lexeme = .keyword .END_REPEAT) s c :=
          ⟨h.setting, h.parts, h.sound, h.stop, Terminal.is_lexeme seen⟩
        have after : At x (ts ++ mid ++ [t]) (fun g => (cons t g 0).lexeme = .keyword .END_REPEAT) s c' :=
          At.advance (fun g hg => by rw [hg]; rfl) h hrun
        have lexeme : t.lexeme = .keyword .END_REPEAT := after.ahead
        refine ⟨lexeme, ts ++ mid ++ [t],
          ⟨after.setting, after.parts, after.sound, after.stop, trivial⟩, fun hs => ?_,
          List.getLast?_concat⟩
        rw [List.append_assoc, words_endRepeat statements lexeme last semicolon, words hs]
      · refine .given (fun s c h => h.1) fun lexeme => ?_
        exact (Triple.imp (afterConstruct statements lexeme rfl) fun s c h => h.2).bind fun _ =>
          .pure fun s c h => h
    · exact Triple.bind_fails fun _ => .ite (fun _ => .fail _) fun _ => .failExpecting _

end

end Plc.Grammar

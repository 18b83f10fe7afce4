/-
A body inside an organization unit.

A body stands in a program, a function or a function block, behind a line with the name of the unit and a
line with its variables.  There it is read as it is alone, where the variables are declared, but for a
semicolon that comes first.

* `Enclosure.text` — a unit with a body between its lines;
* `Comes` — a rule comes from where some words and tokens are left to where others are;
* `Enclosure.text_unit` — the unit is one declaration with the statements of its body;
* `Enclosure.text_unit_semicolon` — not so a semicolon that comes first.
-/
import Plc.Proofs.Grammar.Names
import Plc.Proofs.Moved.Block
import Plc.Proofs.Moved.Framed
import Plc.Proofs.Token.Class

namespace Plc

open Grammar

/-! ### The units -/

/-- The units that a body may stand in. -/
inductive Enclosure where
  | program
  | function
  | functionBlock
  deriving DecidableEq

namespace Enclosure

/-- The word that opens the unit. -/
def opener : Enclosure → Keyword
  | program => .PROGRAM
  | function => .FUNCTION
  | functionBlock => .FUNCTION_BLOCK

/-- The word that closes the unit. -/
def closer : Enclosure → Keyword
  | program => .END_PROGRAM
  | function => .END_FUNCTION
  | functionBlock => .END_FUNCTION_BLOCK

/-- The words that may end the body. -/
def ends : Enclosure → List Keyword
  | program => [.END_PROGRAM]
  | function => [.END_FUNCTION]
  | functionBlock => [.END_FUNCTION_BLOCK, .METHOD]

/-- The rule for the unit. -/
def rule : Enclosure → Nat → Rule Pou
  | program => programDecl
  | function => functionDecl
  | functionBlock => functionBlockDecl

/-- What the unit gives, behind its name. -/
def result : Enclosure → String
  | function => " : INT"
  | _ => ""

/-- The line with the name of a unit, and the line with its variables. -/
def head (e : Enclosure) (name : String) (names : List String) : List Char :=
  (e.opener.spelling ++ " " ++ name ++ e.result).toList ++
    '\n' :: ("VAR " ++ commas names ++ " : INT; END_VAR").toList

/-- The place where the body begins. -/
def offset (e : Enclosure) (name : String) (names : List String) : Nat :=
  (e.head name names).length + 1

/-- A unit with the body between its lines. -/
def text (e : Enclosure) (name : String) (names : List String) (body : List Char) : List Char :=
  framedText (e.head name names) body e.closer

/-- The word that closes the unit, where it stands. -/
def last (e : Enclosure) (name : String) (names : List String) (body : List Char) : Token :=
  closingToken (e.head name names) body e.closer

def resultWords : Enclosure → List Word
  | function => [.mark .colon, .name "INT"]
  | _ => []

/-- The words in front of a body. -/
def headWords (e : Enclosure) (name : String) (names : List String) : List Word :=
  .keyword e.opener :: .name name :: (e.resultWords ++ intBlockWords names)

variable {name : String} {names : List String}

theorem cut_result (e : Enclosure) {rest : List Char} (h : Lexed.NameEnds rest) :
    Cut .generic (e.result.toList ++ rest) e.resultWords rest := by
  cases e with
  | program | functionBlock => exact .done rest
  | function =>
    exact (Phrase.append_any (.spaced_mark (m := .colon) rfl) (.name (n := "INT") rfl)).cut rest h

theorem nameEnds_result (e : Enclosure) {rest : List Char} (h : Lexed.NameEnds rest) :
    Lexed.NameEnds (e.result.toList ++ rest) := by
  cases e with
  | program | functionBlock => exact h
  | function =>
    rintro _ ⟨⟩
    decide

/-- The line with the variables. -/
theorem phrase_block (some_name : names ≠ []) (all : ∀ n ∈ names, isIdentifier .generic n = true) :
    Phrase .generic Lexed.Ends ("VAR " ++ commas names ++ " : INT; END_VAR") (intBlockWords names) := by
  have listed : List.Forall₂ (Phrase .generic Lexed.NameEnds) names (names.map fun n => [.name n]) :=
    List.forall₂_map_right_iff.2 (List.forall₂_same.2 fun n hn => .name (all n hn))
  have front : Phrase .generic Lexed.NameEnds ("VAR " ++ commas names)
      (.keyword .VAR :: commaWords (names.map fun n => [.name n])) := by
    refine Phrase.append_any (.keyword_blank (k := .VAR) rfl) (.commas listed some_name fun rest => ?_)
    rintro _ ⟨⟩
    decide
  have type : Phrase .generic Anything (" : " ++ "INT" ++ ";")
      [.mark .colon, .name "INT", .mark .semicolon] := by
    refine Phrase.append (.append_any (.spaced_mark (m := .colon) rfl) (.name (n := "INT") rfl))
      (.close (m := .semicolon) (by decide)) fun rest _ => ?_
    rintro _ ⟨⟩
    decide
  have whole := (front.append type fun rest _ => by rintro _ ⟨⟩; decide).append_any
    (.blank_keyword (k := .END_VAR) rfl)
  rwa [String.append_assoc] at whole

/-- The lines in front of a body are cut into their words. -/
theorem cut_head (e : Enclosure) (named : isIdentifier .generic name = true) (some_name : names ≠ [])
    (all : ∀ n ∈ names, isIdentifier .generic n = true) :
    Cut .generic (e.head name names) (e.headWords name names) [] := by
  have known : Dialect.generic.reserves e.opener = true := by cases e <;> rfl
  have title : Phrase .generic Lexed.NameEnds (e.opener.spelling ++ " " ++ name)
      [.keyword e.opener, .name name] :=
    Phrase.append_any (.keyword_blank known) (.name named)
  have line : Lexed.NameEnds ('\n' :: ("VAR " ++ commas names ++ " : INT; END_VAR").toList) := by
    rintro _ ⟨⟩
    decide
  have block := (phrase_block some_name all).cut [] fun _ none => by cases none
  rw [List.append_nil] at block
  rw [head, String.toList_append, List.append_assoc]
  refine (title.cut _ (e.nameEnds_result line)).append ((e.cut_result line).append ?_)
  exact .blank (by decide) block

/-- A unit begins with no byte order mark. -/
theorem opens (e : Enclosure) (rest : List Char) :
    (e.head name names ++ rest).head? ≠ some '\ufeff' := by
  rw [head, String.toList_append, String.toList_append, String.toList_append]
  cases e <;> rintro ⟨⟩

/-- The tokens of the lines in front of a body. -/
theorem delivers_head (e : Enclosure) (named : isIdentifier .generic name = true) (some_name : names ≠ [])
    (all : ∀ n ∈ names, isIdentifier .generic n = true) :
    ∃ us, Scanner.Delivers .generic ⟨0, e.head name names⟩ us ∧
      us.map Token.word = e.headWords name names ∧ (∀ t ∈ us, Lexed.isOpen t.lexeme = false) ∧
      us.filter isRead = us := by
  -- The declarations are cut by themselves first. The scanner then delivers the same tokens
  -- whatever follows them.
  have mark : (e.head name names).head? ≠ some '\ufeff' :=
    List.append_nil (e.head name names) ▸ e.opens []
  obtain ⟨us, fin, scanned, words, -, plain⟩ := (e.cut_head named some_name all).scan mark
  have cut : tokens .generic (e.head name names) = .ok (us ++ [fin]) := by
    unfold tokens
    rw [scanned]
  obtain ⟨us', fin', same, -, delivers⟩ := delivers_of_tokens cut
  obtain ⟨rfl, -⟩ := List.append_inj' same rfl
  rw [Scanner.start_plain mark] at delivers
  refine ⟨us, delivers, words, delivers.closed fun t ht => ?_, List.filter_eq_self.2 fun t ht => ?_⟩
  -- The last word is `END_VAR`, which leaves nothing open.
  · have last : (e.headWords name names).getLast? = some (.keyword .END_VAR) := by
      have parts : e.headWords name names = .keyword e.opener :: .name name ::
          (e.resultWords ++ .keyword .VAR :: intWords names) ++ [Word.keyword .END_VAR] := by
        simp [headWords, intBlockWords]
      rw [parts, List.getLast?_concat]
    rw [← words, List.getLast?_map, ht] at last
    rw [show t.lexeme = .keyword .END_VAR from congrArg Word.lexeme (Option.some.inj last)]
    rfl
  · unfold isRead
    split
    · next p same => exact absurd same (plain t ht p)
    · rfl

end Enclosure

/-! ### Reading the units -/

namespace Grammar

/-- Some words come, and then the tokens. -/
structure Awaits (s : Setting) (names : List (List String)) (ws : List Word) (ts : List Token)
    (c : Cursor) : Prop where
  before : Before s.dialect names (ws ++ ts.map Token.word) s c
  tokens : ts <:+ c.rest

/-- From where the one holds, the rule comes to where the other holds, unless a limit is passed. -/
def Comes {α : Type} (s : Setting) (r : Rule α) (P : α → Prop) (A B : Cursor → Prop) : Prop :=
  ∀ c, A c → UnlessLimited (fun a d => P a ∧ B d) (r s c)

variable {α β : Type} {s : Setting} {names : List (List String)} {ws ws' : List Word}
  {ts ts' : List Token} {P : α → Prop} {Q : β → Prop} {A B C : Cursor → Prop}

theorem Awaits.rest {c : Cursor} (h : Awaits s names [] ts c) : c.rest = ts := by
  have same := congrArg List.length h.before.words
  rw [List.nil_append, List.length_map, List.length_map] at same
  exact (h.tokens.eq_of_length same.symm).symm

/-- Every rule passes over some tokens. -/
theorem passesOver :
    GrammarCongruence fun _ _ (r : Rule _) => Leads (fun _ c d => ReadsOver false c d) r :=
  Course.grammar ReadsOver.course

/-- A rule that reads words leaves the tokens behind them as they are. -/
theorem Reads.comes {r : Rule α} (leads : Leads (fun _ c d => ReadsOver false c d) r)
    (h : Reads s.dialect names r P (ws ++ ts.map Token.word) (ws' ++ ts.map Token.word)) :
    Comes s r P (Awaits s names ws ts) (Awaits s names ws' ts) := by
  intro c here
  obtain ⟨a, d, run, ha, after⟩ | ⟨e, d, run⟩ := h s c here.before
  · obtain ⟨front, passed, -⟩ := ReadsOver.of_leads leads run
    have left := congrArg List.length after.words
    rw [List.length_map, List.length_append, List.length_map] at left
    rw [run]
    refine .ok ⟨ha, after, ?_⟩
    exact List.suffix_of_suffix_length_le here.tokens ⟨front, passed.symm⟩ (by omega)
  · rw [run]
    exact .limit e d

namespace Comes

theorem bind {r : Rule α} {f : α → Rule β} (h : Comes s r P A B)
    (hf : ∀ a, P a → Comes s (f a) Q B C) : Comes s (r >>= f) Q A C :=
  fun c hc => (h c hc).bind fun a d ⟨ha, hd⟩ => hf a ha d hd

theorem pure {a : α} (h : P a) : Comes s (pure a : Rule α) P A A :=
  fun _ hc => .ok ⟨h, hc⟩

theorem map {r : Rule α} {f : α → β} (h : Comes s r P A B) (hf : ∀ a, P a → Q (f a)) :
    Comes s (f <$> r) Q A B := by
  rw [map_eq_pure_bind]
  exact h.bind fun a ha => pure (hf a ha)

/-- A rule that reads words, and then others. -/
theorem after {v w : List Word} {r : Rule α} {f : α → Rule β}
    (leads : Leads (fun _ c d => ReadsOver false c d) r)
    (h : Reads s.dialect names r P (v ++ ts.map Token.word) (w ++ ts.map Token.word))
    (hf : ∀ a, P a → Comes s (f a) Q (Awaits s names w ts) C) :
    Comes s (r >>= f) Q (Awaits s names v ts) C :=
  (h.comes leads).bind hf

theorem nested {r : Rule α} (h : Comes s r P (Awaits s names ws ts) (Awaits s names ws' ts')) :
    Comes s (nested r) P (Awaits s names ws ts) (Awaits s names ws' ts') := by
  rintro c ⟨⟨dialect, finish, declared, words⟩, tokens⟩
  refine (h c.enter ⟨⟨dialect, finish, declared, words⟩, tokens⟩).nested ?_
  rintro a d ⟨ha, ⟨dialect, finish, declared, words⟩, tokens⟩
  exact ⟨ha, ⟨dialect, finish, declared, words⟩, tokens⟩

theorem recovering {r : Rule α} (h : Comes s r P A B) (stops : Lexeme → Bool) (pastSemicolon : Bool) :
    Comes s (recovering stops pastSemicolon r) (fun o => ∃ a, o = some a ∧ P a) A B := by
  intro c hc
  refine (h c hc).recovering.mono ?_
  rintro o d ⟨a, rfl, ha, hd⟩
  exact ⟨⟨a, rfl, ha⟩, hd⟩

theorem declaring {r : Rule α} {inner : List String}
    (h : Comes s r P (Awaits s (inner :: names) ws ts) (Awaits s (inner :: names) ws' ts')) :
    Comes s (declaring inner r) P (Awaits s names ws ts) (Awaits s names ws' ts') := by
  rintro c ⟨⟨dialect, finish, rfl, words⟩, tokens⟩
  have given := h { c with declared := inner :: c.declared } ⟨⟨dialect, finish, rfl, words⟩, tokens⟩
  unfold Grammar.declaring
  rw [bracket_apply]
  generalize r s { c with declared := inner :: c.declared } = run at given
  cases given with
  | limit e d => exact .limit e _
  | @ok a d given =>
    obtain ⟨ha, ⟨dialect, finish, declared, words⟩, tokens⟩ := given
    exact .ok ⟨ha, ⟨dialect, finish, congrArg List.tail declared, words⟩, tokens⟩

/-- A loop that makes one pass. -/
theorem many_once {more : Rule Bool} {item : Nat → Rule (List α)} {P : List α → Prop}
    (begins : Comes s more (· = true) A A) (hitem : Comes s (item 0) P A B)
    (ends : Comes s more (· = false) B B) (n : Nat) : Comes s (many more item n 0) P A B := by
  have done (n size : Nat) : Comes s (many more item n size) (· = []) B B := by
    unfold Grammar.many
    exact ends.bind fun b hb => hb ▸ pure rfl
  unfold Grammar.many
  refine begins.bind fun b hb => ?_
  subst hb
  cases n with
  | zero => exact fun c _ => .limit _ _
  | succ n =>
    refine hitem.bind fun xs hxs => (done n _).bind ?_
    rintro _ rfl
    exact pure (by rwa [List.append_nil])

end Comes

section Units

variable {ns : List String} {front : List Word} {ss : List Stmt} {levels : Nat} {n : String}
  {close : Keyword}

/-- What stands behind the variables is a body, up to the word that closes the unit. -/
structure Bodied (s : Setting) (levels : Nat) (ns : List String) (front : List Word) (ts : List Token)
    (ends : List Keyword) (close : Keyword) (ss : List Stmt) : Prop where
  plain : s.dialect.blocks = false
  some_name : ns ≠ []
  semicolon : Reads.OptionalSemicolon front (ts.map Token.word)
  noBlock : (Grammar.ahead (ts.map Token.word) 0).isAmong varBlockWords = false
  noMethod : (Grammar.ahead (ts.map Token.word) 0).is Keyword.METHOD = false
  noBegin : (Grammar.ahead (ts.map Token.word) 0).is Keyword.BEGIN = false
  body : Comes s (body levels ends) (· = ss) (Awaits s [ns] [] ts) (Awaits s [ns] [.keyword close] [])

namespace Bodied

theorem pouBody (h : Bodied s levels ns front ts [close] close ss) {blocks : List VarBlock}
    (same : namesOf blocks = ns) :
    Comes s (pouBody levels blocks close) (· = ss) (Awaits s [] [] ts)
      (Awaits s [] [.keyword close] []) := by
  subst same
  exact .declaring (.after (w := []) (passesOver.accept_rel _) (.not_accept h.noBegin) fun _ _ => h.body)

theorem varBlocks {ends : List Keyword} (h : Bodied s levels ns front ts ends close ss) :
    Reads s.dialect [] (varBlocks levels) (fun bs => namesOf bs = ns)
      (intBlockWords ns ++ front ++ ts.map Token.word) (ts.map Token.word) := by
  rw [List.append_assoc]
  exact .varBlocks_int h.some_name h.semicolon h.noBlock levels

theorem finished (close : Keyword) (opener : Token) {build : Span → Pou}
    (built : ∀ s, (build s).code.body = ss) :
    Comes s (finishPou close opener >>= fun _ => node opener.span build) (fun p => p.code.body = ss)
      (Awaits s [] [.keyword close] []) (Awaits s [] [] []) := by
  refine .after (w := []) (passesOver.finishPou_rel _ _) (.finishPou _ _) fun _ _ => ?_
  refine ((Reads.node _ _).mono ?_).comes (passesOver.node_rel _ _)
  rintro _ ⟨s, rfl⟩
  exact built s

theorem programDecl (h : Bodied s levels ns front ts [.END_PROGRAM] .END_PROGRAM ss) :
    Comes s (programDecl levels) (fun p => p.code.body = ss)
      (Awaits s [] (.keyword .PROGRAM :: .name n :: (intBlockWords ns ++ front)) ts)
      (Awaits s [] [] []) := by
  refine .after passesOver.advance .advance fun t _ => ?_
  refine .after (passesOver.expectAnyName_rel _) (.expectAnyName _ _) fun name _ => ?_
  refine .after (passesOver.headerExtras_rel) (.headerExtras h.plain) fun (attributes, pragmas) _ => ?_
  refine .after (w := []) (passesOver.varBlocks_rel (.refl _)) h.varBlocks fun blocks hbs => ?_
  refine (h.pouBody hbs).bind ?_
  rintro _ rfl
  exact finished _ t fun _ => rfl

theorem functionDecl (h : Bodied s levels ns front ts [.END_FUNCTION] .END_FUNCTION ss) :
    Comes s (functionDecl levels) (fun p => p.code.body = ss)
      (Awaits s [] (.keyword .FUNCTION :: .name n :: .mark .colon :: .name "INT" ::
        (intBlockWords ns ++ front)) ts) (Awaits s [] [] []) := by
  refine .after passesOver.advance .advance fun t _ => ?_
  refine .after (passesOver.expectAnyName_rel _) (.expectAnyName _ _) fun name _ => ?_
  refine .after (passesOver.returnType_rel (.refl _)) (.returnType_int _ rfl) fun type _ => ?_
  refine .after (passesOver.headerExtras_rel) (.headerExtras h.plain) fun (attributes, pragmas) _ => ?_
  refine .after (w := []) (passesOver.varBlocks_rel (.refl _)) h.varBlocks fun blocks hbs => ?_
  refine (h.pouBody hbs).bind ?_
  rintro _ rfl
  exact finished _ t fun _ => rfl

theorem functionBlockDecl
    (h : Bodied s levels ns front ts [.END_FUNCTION_BLOCK, .METHOD] .END_FUNCTION_BLOCK ss) :
    Comes s (functionBlockDecl levels) (fun p => p.code.body = ss)
      (Awaits s [] (.keyword .FUNCTION_BLOCK :: .name n :: (intBlockWords ns ++ front)) ts)
      (Awaits s [] [] []) := by
  have first : Reads s.dialect [] (members levels {}) (fun m => namesOf m.blocks = ns)
      (intBlockWords ns ++ front ++ ts.map Token.word) (ts.map Token.word) := by
    rw [List.append_assoc]
    exact .members_int h.some_name h.semicolon h.noBlock h.noMethod levels
  refine .after passesOver.advance .advance fun t _ => ?_
  refine .after (passesOver.classHeader_rel _) (.classHeader _ _ rfl rfl) fun (name, heritage) _ => ?_
  refine .after (passesOver.headerExtras_rel) (.headerExtras h.plain) fun (attributes, pragmas) _ => ?_
  refine .after (w := []) (passesOver.units.members_rel (.refl _) _) first fun m hm => ?_
  subst hm
  refine Comes.bind (P := fun x => x.1 = ss) (B := Awaits s [] [.keyword .END_FUNCTION_BLOCK] [])
    (.declaring ?_) ?_
  · refine .after (w := []) (passesOver.accept_rel _) (.not_accept h.noBegin) fun _ _ => ?_
    refine h.body.bind fun stmts same => ?_
    refine .after (passesOver.units.members_rel (.refl _) _) (.members_none rfl rfl _ _) fun _ _ => ?_
    exact .pure same
  · rintro ⟨stmts, all⟩ rfl
    exact finished _ t fun _ => rfl

theorem rule {e : Enclosure} (h : Bodied s levels ns front ts e.ends e.closer ss) :
    Comes s (e.rule levels) (fun p => p.code.body = ss) (Awaits s [] (e.headWords n ns ++ front) ts)
      (Awaits s [] [] []) := by
  cases e with
  | program => exact h.programDecl
  | function => exact h.functionDecl
  | functionBlock => exact h.functionBlockDecl

/-- One declaration. -/
theorem declaration {e : Enclosure} (h : ∀ levels, Bodied s levels ns front ts e.ends e.closer ss)
    (levels : Nat) : Comes s (declarationWith Grammar.functionBlockDecl levels)
      (fun o => ∃ p, o = some (.pou p) ∧ p.code.body = ss) (Awaits s [] (e.headWords n ns ++ front) ts)
      (Awaits s [] [] []) := by
  cases levels with
  | zero => exact fun _ _ => .limit _ _
  | succ levels =>
    have unit : Comes s (pouDecl (e.rule levels))
        (fun o => ∃ p, o = some (.pou p) ∧ p.code.body = ss)
        (Awaits s [] (e.headWords n ns ++ front) ts) (Awaits s [] [] []) :=
      (h levels).rule.map fun p hp => ⟨p, rfl, hp⟩
    obtain ⟨ws, words⟩ : ∃ ws, e.headWords n ns ++ front = .keyword e.opener :: ws := ⟨_, rfl⟩
    rw [words] at unit ⊢
    refine .nested (.after (w := .keyword e.opener :: ws) passesOver.peek_rel .peek fun t ht => ?_)
    have word : t.lexeme = .keyword e.opener := congrArg Word.lexeme ht
    rw [word]
    cases e <;> exact unit

/-- One declaration, and no more. -/
theorem compilationUnit {e : Enclosure} (h : ∀ levels, Bodied s levels ns front ts e.ends e.closer ss)
    (levels : Nat) : Comes s (compilationUnit levels)
      (fun u => ∃ p, u.topLevel = [.pou p] ∧ p.code.body = ss)
      (Awaits s [] (e.headWords n ns ++ front) ts) (Awaits s [] [] []) := by
  have decls : Comes s (declarationsUntil none (declarationWith Grammar.functionBlockDecl levels))
      (fun ds => ∃ p, ds = [.pou p] ∧ p.code.body = ss) (Awaits s [] (e.headWords n ns ++ front) ts)
      (Awaits s [] [] []) := by
    have passes : Comes s passes (fun _ => True) (Awaits s [] (e.headWords n ns ++ front) ts)
        (Awaits s [] (e.headWords n ns ++ front) ts) := fun c hc => .ok ⟨trivial, hc⟩
    refine passes.bind fun passes _ => .many_once ?_ ?_ ?_ passes
    · exact .after passesOver.lexeme_rel .lexeme fun l hl => .pure (by rw [hl]; rfl)
    · refine ((declaration h levels).recovering _ _).bind ?_
      rintro _ ⟨_, rfl, p, rfl, hp⟩
      refine .after (w := []) (passesOver.checkSize_rel _ _) (.checkSize _ _) fun _ _ => ?_
      exact .pure ⟨p, rfl, hp⟩
    · exact .after (w := []) passesOver.lexeme_rel .lexeme fun l hl => .pure (by rw [hl]; rfl)
  refine decls.bind ?_
  rintro _ ⟨p, rfl, hp⟩
  have source : Comes s sourceText (fun _ => True) (Awaits s [] [] []) (Awaits s [] [] []) :=
    fun c hc => .ok ⟨trivial, hc⟩
  refine source.bind fun text _ => ?_
  exact .after (w := []) (passesOver.recordNode _) (.recordNode _) fun _ _ => .pure ⟨p, rfl, hp⟩

end Bodied

end Units

end Grammar

/-! ### A body inside a unit -/

/-- The body is read behind the variables, up to the word that closes the unit. -/
theorem framedBody_comes {head body : List Char} {close : Keyword} {d : Dialect}
    (listed : close ∈ endWords) {names : List String} {l l' : Limits} {fin fin' : Token}
    {us : List Token} {ss : List Stmt} {c m : Cursor} {levels n size : Nat} (ends : fin.lexeme.isFinish = true)
    (run : many (moreStatements (pure false)) (oneMore (statement levels)) n size
      (strictSetting ⟨body, d, l⟩ fin) c = .ok ss m)
    (rest : c.rest = us) (declared : c.declared = [names]) (done : m.rest = [])
    (within : ∀ t ∈ us, t.span.stop ≤ body.length)
    (closing : ∀ t ∈ us.getLast?, closesStatement t.lexeme = true) (words : List Keyword)
    (levels' : Nat) :
    Comes (strictSetting ⟨framedText head body close, d, l'⟩ fin') (Grammar.body levels' words)
      (· = ss.map (Stmt.moved (head.length + 1)))
      (Awaits (strictSetting ⟨framedText head body close, d, l'⟩ fin') [names] []
        (us.map (Token.moved (head.length + 1)) ++ [closingToken head body close]))
      (Awaits (strictSetting ⟨framedText head body close, d, l'⟩ fin') [names] [.keyword close] []) := by
  intro c' here
  have given : UnlessLimited (fun ss' m' => ss' = ss.map (Stmt.moved (head.length + 1)) ∧
      m'.rest = [closingToken head body close]) (statementList (statement levels')
        (strictSetting ⟨framedText head body close, d, l'⟩ fin') c') :=
    framedBody_follows listed ends run rest declared done within closing here.rest here.before.declared
      levels'
  -- The names that are declared do not change in the body.
  have keeps : KeepsNames (statementList (statement levels')) :=
    keepsNames.statementList_rel (s := statement levels') (keepsNames.statement_rel (.refl levels'))
  show UnlessLimited _ (bodyWith (statement levels') words _ c')
  rw [Reading.bodyWith_strict rfl]
  have known := keeps (strictSetting ⟨framedText head body close, d, l'⟩ fin') c'
  generalize statementList _ _ c' = result at given known
  cases given with
  | limit f d' => exact .limit f d'
  | @ok ss' d' given =>
    obtain ⟨rfl, left⟩ := given
    have declared := known.trans here.before.declared
    refine .ok ⟨rfl, ⟨rfl, here.before.finish, declared, ?_⟩, List.nil_suffix⟩
    rw [left]
    rfl

/-- What begins a statement is no declaration. -/
theorem not_declaration {l : Lexeme} (begins : endsStatements l = false) :
    l.isAmong varBlockWords = false ∧ l.is Keyword.METHOD = false := by
  unfold endsStatements at begins
  simp only [Bool.or_eq_false_iff] at begins
  obtain ⟨⟨⟨⟨-, -⟩, declaration⟩, block⟩, -⟩ := begins
  refine ⟨block, Bool.eq_false_iff.2 fun method => ?_⟩
  rw [Terminal.is_lexeme method] at declaration
  cases declaration

namespace Enclosure

variable {name : String} {names : List String} {body : List Char} {ts front us : List Token}

/-- What is said neither of the first token of the body nor of the word that closes the unit is not said of
what stands behind the variables. -/
theorem ahead_inside (e : Enclosure) {k : Nat} (p : Lexeme → Bool)
    (first : ∀ t ∈ us.head?, p t.lexeme = false) (last : p (.keyword e.closer) = false) :
    p (Grammar.ahead ((us.map (Token.moved k) ++ [e.last name names body]).map Token.word) 0) = false := by
  cases us with
  | nil => exact last
  | cons t us => exact first t rfl

/-- The body stands behind the variables as it does alone, without the semicolon of the block. -/
theorem bodied (e : Enclosure) {l l' : Limits} {fin fin' : Token} {ss : List Stmt} {d m : Cursor}
    {levels n size : Nat} (some_name : names ≠ []) (mark : body.head? ≠ some '\ufeff')
    (ends : fin.lexeme.isFinish = true) (inner : Scanner.Delivers .generic ⟨0, body⟩ ts)
    (parts : ts.filter isRead = front ++ us)
    (closing : ∀ t ∈ (ts.filter isRead).getLast?, closesStatement t.lexeme = true)
    (rest : m.rest = us) (declared : m.declared = [names])
    (run : many (moreStatements (pure false)) (oneMore (statement levels)) n size
      (strictSetting ⟨body, .generic, l⟩ fin) m = .ok ss d) (done : d.rest = [])
    (semicolon : (∃ t, front = [t] ∧ t.lexeme = .mark .semicolon) ∨
      front = [] ∧ ∀ t ∈ us.head?, t.lexeme.is Mark.semicolon = false) (levels' : Nat) :
    Bodied (strictSetting ⟨e.text name names body, .generic, l'⟩ fin') levels' names
      (front.map Token.word) (us.map (Token.moved (e.offset name names)) ++ [e.last name names body])
      e.ends e.closer
      (ss.map (Stmt.moved (e.offset name names))) := by
  have listed : e.closer ∈ endWords := by cases e <;> decide
  have place : Scanner.In ⟨0, body⟩ body := ⟨Nat.zero_le _, rfl⟩
  have read (t : Token) (ht : t ∈ us) : t ∈ ts :=
    (List.mem_filter.1 (parts ▸ List.mem_append_right front ht)).1
  have begins : ∀ t ∈ us.head?, endsStatements t.lexeme = false := rest ▸ many_begins run done
  constructor
  case plain => rfl
  case some_name => exact some_name
  case semicolon =>
    obtain ⟨t, rfl, word⟩ | ⟨rfl, other⟩ := semicolon
    · exact .inl ⟨t.word, rfl, by rw [show t.word.lexeme = _ from word]; rfl⟩
    · exact .inr ⟨rfl, e.ahead_inside (·.is Mark.semicolon) other rfl⟩
  case noBlock =>
    refine e.ahead_inside (·.isAmong varBlockWords) (fun t ht => (not_declaration (begins t ht)).1) ?_
    cases e <;> rfl
  case noMethod =>
    refine e.ahead_inside (·.is Keyword.METHOD) (fun t ht => (not_declaration (begins t ht)).2) ?_
    cases e <;> rfl
  case noBegin =>
    -- The generic language has no such word.
    refine e.ahead_inside (·.is Keyword.BEGIN) (fun t ht => Bool.eq_false_iff.2 fun word => ?_) ?_
    · obtain ⟨_, cut, -⟩ := Scanner.Delivers.tokens (Scanner.start_plain mark ▸ inner)
      have known := Token.reserved cut (List.mem_append_left _ (read t (List.mem_of_mem_head? ht)))
        (Terminal.is_lexeme word)
      cases known
    · cases e <;> rfl
  case body =>
    refine framedBody_comes listed ends run rest declared done
      (fun t ht => (inner.within place t (read t ht)).2.2) (fun t ht => closing t ?_) e.ends levels'
    rw [parts, List.getLast?_append, ht]
    rfl

/-- The tokens of a unit. -/
def tokens (e : Enclosure) (name : String) (names : List String) (body : List Char) (vs ts : List Token) :
    List Token :=
  vs ++ (ts.map (Token.moved (e.offset name names)) ++ [e.last name names body])

theorem delivers_text (e : Enclosure) {vs : List Token}
    (head : Scanner.Delivers .generic ⟨0, e.head name names⟩ vs)
    (closedHead : ∀ t ∈ vs, Lexed.isOpen t.lexeme = false)
    (inner : Scanner.Delivers .generic ⟨0, body⟩ ts)
    (closed : ∀ t ∈ ts, Lexed.isOpen t.lexeme = false) :
    Scanner.Delivers .generic (Scanner.start (e.text name names body))
      (e.tokens name names body vs ts) := by
  have known : Dialect.generic.reserves e.closer = true := by cases e <;> rfl
  have start : Scanner.start (e.text name names body) = ⟨0, e.text name names body⟩ :=
    Scanner.start_plain (e.opens _)
  rw [start]
  exact delivers_framed known head closedHead inner closed

/-- The words of the lines in front come first, then the semicolon of the block, then the body. -/
theorem awaits_tokens (e : Enclosure) {l : Limits} {fin : Token} {vs : List Token}
    (ends : fin.lexeme.isFinish = true) (words : vs.map Token.word = e.headWords name names)
    (readHead : vs.filter isRead = vs) (parts : ts.filter isRead = front ++ us) :
    Awaits (strictSetting ⟨e.text name names body, .generic, l⟩ fin) []
      (e.headWords name names ++ front.map Token.word)
      (us.map (Token.moved (e.offset name names)) ++ [e.last name names body])
      (.before (e.tokens name names body vs ts ++ [fin])) := by
  have rest : (Cursor.before (e.tokens name names body vs ts ++ [fin])).rest =
      vs ++ front.map (Token.moved (e.offset name names)) ++
        (us.map (Token.moved (e.offset name names)) ++ [e.last name names body]) := by
    rw [before_rest, tokens, List.filter_append, List.filter_append, filter_isRead_moved, readHead, parts,
      List.map_append, List.filter_cons_of_pos rfl, List.filter_nil, List.append_assoc, List.append_assoc]
  have finish : fin.lexeme = .finish := by
    cases word : fin.lexeme with
    | finish => rfl
    | _ =>
      rw [word] at ends
      cases ends
  refine ⟨⟨rfl, finish, rfl, ?_⟩, ?_⟩
  · rw [rest, List.map_append, List.map_append, words, List.map_map]
    rfl
  · rw [rest]
    exact List.suffix_append _ _

/-- A body is read in a unit as it is alone, as far on as it stands there; but a semicolon that comes
first belongs to the variables.  Only a limit can come in between. -/
theorem text_unit (e : Enclosure) {ss : List Stmt} (l l' : Limits)
    (named : isIdentifier .generic name = true) (some_name : names ≠ [])
    (all : ∀ n ∈ names, isIdentifier .generic n = true) (mark : body.head? ≠ some '\ufeff')
    (read : (Reading.mk body .generic l).statements names = .ok ss) :
    (∃ u p, (Reading.mk (e.text name names body) .generic l').unit = .ok u ∧ u.topLevel = [.pou p] ∧
        p.code.body = (behindVariables ss).map (Stmt.moved (e.offset name names))) ∨
      ∃ f, (Reading.mk (e.text name names body) .generic l').unit = .error (.limit f) := by
  obtain ⟨vs, head, words, closedHead, readHead⟩ := e.delivers_head named some_name all
  obtain ⟨ts, fin, d, inner, ends, run, done, closing, closedInner⟩ := Reading.statements_eq_ok read
  rw [Scanner.start_plain mark] at inner
  obtain ⟨front, us, m, n, size, parts, rest, declared, later, semicolon⟩ :=
    statementList_behind rfl ends run done
  rw [opening_rest] at parts
  have given (fin' : Token) (ends' : fin'.lexeme.isFinish = true) : UnlessLimited
      (fun u _ => ∃ p, u.topLevel = [.pou p] ∧
        p.code.body = (behindVariables ss).map (Stmt.moved (e.offset name names)))
      (compilationUnit l'.maxDepth (strictSetting ⟨e.text name names body, .generic, l'⟩ fin')
        (.before (e.tokens name names body vs ts ++ [fin']))) := by
    -- The body is read inside of the unit as it is alone, but for a first semicolon, which the
    -- variables take.
    have bodied (levels : Nat) :
        Bodied (strictSetting ⟨e.text name names body, .generic, l'⟩ fin') levels names
        (front.map Token.word) (us.map (Token.moved (e.offset name names)) ++ [e.last name names body])
        e.ends e.closer ((behindVariables ss).map (Stmt.moved (e.offset name names))) :=
      e.bodied some_name mark ends inner parts closing rest declared later done semicolon levels
    have unit := Bodied.compilationUnit (n := name) bodied l'.maxDepth
    exact (unit _ (e.awaits_tokens ends' words readHead parts)).mono fun _ _ h => h.1
  obtain ⟨u, ⟨p, one, same⟩, unit⟩ | limited :=
    Reading.strictly_of_run (e.delivers_text head closedHead inner closedInner) given
  · exact .inl ⟨u, p, unit, one, same⟩
  · exact .inr limited

/-- A call of a declared name, in a function block. -/
theorem text_unit_call :
    isIdentifier .generic "Start" = true ∧ ["t1", "run"] ≠ [] ∧
      (∀ n ∈ ["t1", "run"], isIdentifier .generic n = true) ∧
      "t1(run);".toList.head? ≠ some '\ufeff' ∧
      ∃ ss, (Reading.mk "t1(run);".toList .generic {}).statements ["t1", "run"] = .ok ss ∧
        ((∃ u p, (Reading.mk (functionBlock.text "Start" ["t1", "run"] "t1(run);".toList)
              .generic {}).unit = .ok u ∧ u.topLevel = [.pou p] ∧
            p.code.body = (behindVariables ss).map (Stmt.moved 48)) ∨
          ∃ f, (Reading.mk (functionBlock.text "Start" ["t1", "run"] "t1(run);".toList)
            .generic {}).unit = .error (.limit f)) := by
  have accepted : ((Reading.mk "t1(run);".toList .generic {}).statements
      ["t1", "run"]).toOption.isSome = true := by decide +kernel
  obtain ⟨ss, read⟩ := ok_of_isSome accepted
  have place : functionBlock.offset "Start" ["t1", "run"] = 48 := by decide
  have inside := @text_unit "Start" _ _ functionBlock _ {} {} (by decide) (by decide) (by decide)
    (by decide) read
  rw [place] at inside
  exact ⟨by decide, by decide, by decide, by decide, ss, read, inside⟩

/-- A semicolon that comes first is not read as it is alone: the block of variables takes it. -/
theorem text_unit_semicolon :
    ¬∀ (e : Enclosure) (name : String) (names : List String) (body : List Char) (ss : List Stmt),
      isIdentifier .generic name = true → names ≠ [] → names.Nodup →
      (∀ n ∈ names, isIdentifier .generic n = true) → body.head? ≠ some '\ufeff' →
      (Reading.mk body .generic {}).statements names = .ok ss →
      (∃ u p, (Reading.mk (e.text name names body) .generic {}).unit = .ok u ∧ u.topLevel = [.pou p] ∧
          p.code.body = ss.map (Stmt.moved (e.offset name names))) ∨
        ∃ f, (Reading.mk (e.text name names body) .generic {}).unit = .error (.limit f) := by
  intro same
  have accepted : ((Reading.mk ";".toList .generic {}).statements ["a"]).toOption.any
      (!·.isEmpty) = true := by decide +kernel
  have taken : (Reading.mk (program.text "P" ["a"] ";".toList) .generic {}).unit.toOption.any
      (·.pous.all (·.code.body.isEmpty)) = true := by decide +kernel
  obtain ⟨ss, read, some_body⟩ := ok_of_any accepted
  obtain ⟨u, p, unit, one, body⟩ | ⟨f, limited⟩ :=
    same program "P" ["a"] ";".toList ss (by decide) (by decide) (by decide) (by decide) (by decide) read
  · have pous : u.pous = [p] := by
      rw [CompilationUnit.pous, CompilationUnit.declarations, one]
      rfl
    rw [unit] at taken
    replace taken : u.pous.all (·.code.body.isEmpty) = true := taken
    rw [pous, List.all_cons, body, List.isEmpty_map, Bool.and_eq_true] at taken
    rw [taken.1] at some_body
    cases some_body
  · rw [limited] at taken
    cases taken

end Enclosure

end Plc

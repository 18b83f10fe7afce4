/-
Variables in front of statements.

A block of variables is read from its words.  A semicolon behind the block belongs to it; so where
statements follow that begin with a semicolon, this one is not theirs any more, and the others are read as
they are alone.

* `Grammar.Reads.varBlocks_int`, `Grammar.Reads.members_int` — one block, and a semicolon perhaps;
* `statement_fills` — only a semicolon is read as an empty statement;
* `statementList_behind` — a list goes on behind its first semicolon.
-/
import Plc.Grammar.Decl
import Plc.Proofs.Grammar.Precedence
import Plc.Proofs.Moved.Whole
import Plc.Proofs.RoundTrip.Reads

namespace Plc

open Grammar

/-! ### A block of variables, read from its words -/

/-- The words of variables of type `INT`, with the marks between them. -/
def intWords (names : List String) : List Word :=
  commaWords (names.map fun n => [.name n]) ++ [.mark .colon, .name "INT", .mark .semicolon]

/-- The words of a block of variables of type `INT`. -/
def intBlockWords (names : List String) : List Word :=
  .keyword .VAR :: (intWords names ++ [.keyword .END_VAR])

namespace Grammar.Reads

variable {d : Dialect} {names : List (List String)} {ws ws' : List Word}

theorem takePragmas : Reads d names takePragmas (fun _ => True) ws ws := by
  have waiting : Reads d names takeWaiting (fun _ => True) ws ws := by
    intro s c before
    rw [takeWaiting_apply]
    cases c.pragmas.lookup c.index with
    | none => exact .inl ⟨_, _, rfl, trivial, before⟩
    | some ts => exact .inl ⟨_, _, rfl, trivial, before.1, before.2, before.3, before.4⟩
  have counted (ps : List Pragma) : Reads d names (recordPragmas ps) (fun _ => True) ws ws := by
    induction ps with
    | nil => exact pure trivial
    | cons p ps ih => exact (recordNode p.span).bind fun _ _ => ih
  exact waiting.bind fun ts _ => (counted _).bind fun _ _ => pure trivial

/-- Where blocks have no attributes, nothing stands behind a header but annotations. -/
theorem headerExtras (plain : d.blocks = false) :
    Reads d names headerExtras (fun _ => True) ws ws := by
  have none : Reads d names blockAttributes (fun _ => True) ws ws :=
    .look dialect (ite_neg (by rw [plain]; exact Bool.false_ne_true) (pure trivial))
  exact takePragmas.bind fun _ _ => none.bind fun _ _ => takePragmas.bind fun _ _ => pure trivial

theorem typeSpec_int (levels : Nat) (plain : (Grammar.ahead ws 0).is Mark.leftParen = false) :
    Reads d names (typeSpec levels) (fun _ => True) (.name "INT" :: ws) ws := by
  cases levels with
  | zero => exact tooDeep
  | succ levels =>
    refine nested (peek.bind fun t ht => ?_)
    have lexeme : t.lexeme = .name := congrArg Word.lexeme ht
    have text : t.text = "INT" := congrArg Word.text ht
    rw [lexeme]
    refine .look (lexemeAt 1) (ite_neg ?_ ?_)
    · have other : (Text.upper "INT" == "POINTER") = false := by decide
      rw [text, other, Bool.false_and]
      exact Bool.false_ne_true
    · refine (expectAnyName "INT" _).bind fun t ht => ?_
      have lexeme : t.lexeme = .name := congrArg Word.lexeme ht
      have text : t.text = "INT" := congrArg Word.text ht
      have builtIn : (if t.lexeme.isName then elementaryName? t.text else none) = some "INT" := by
        rw [lexeme, text]
        rfl
      rw [builtIn]
      exact .look (not_accept plain) (ite_neg Bool.false_ne_true ((node _ _).mono fun _ _ => trivial))

/-- Every name gets a declaration of its own. -/
theorem declareEach (type : TypeSpec) (address : Option String) (initial : Option Expr)
    (pragmas : List Pragma) (ts : List Token) : Reads d names
      (declareEach type address initial pragmas ts)
      (fun ds => ds.map VarDecl.name = ts.map Token.nameText) ws ws := by
  induction ts with
  | nil => exact pure rfl
  | cons t ts ih =>
    refine (node _ _).bind ?_
    rintro _ ⟨s, rfl⟩
    exact ih.bind fun ds hds => pure (by rw [List.map_cons, hds, List.map_cons])

/-- Names with commas between them. -/
theorem nameList {ns : List String} (some_name : ns ≠ [])
    (closed : (Grammar.ahead ws 0).is Mark.comma = false) :
    Reads d names (Grammar.commaList (Grammar.expectAnyName "variable name") Token.span)
      (fun ts => ts.map Token.nameText = ns) (commaWords (ns.map fun n => [.name n]) ++ ws) ws := by
  -- The names are items as the tokens that they are somewhere.
  let token (n : String) : Token := (Word.name n).token 0
  have items : ∀ t ∈ ns.map token, Item d names Token.nameText (fun t => [t.word]) (fun _ => True)
      (Grammar.expectAnyName "variable name") t := by
    intro t ht rest _
    obtain ⟨n, -, rfl⟩ := List.mem_map.1 ht
    refine (expectAnyName n _).mono fun t ht => ?_
    have lexeme : t.lexeme = .name := congrArg Word.lexeme ht
    have text : t.text = n := congrArg Word.text ht
    rw [Token.nameText, lexeme]
    exact text
  have listed : Reads d names (Grammar.commaList (Grammar.expectAnyName "variable name") Token.span)
      (fun ts => ts.map Token.nameText = (ns.map token).map Token.nameText)
      (commaWords ((ns.map token).map fun t => [t.word]) ++ ws) ws :=
    commaList (mt List.map_eq_nil_iff.1 some_name) items (fun _ => trivial) trivial closed
  rw [List.map_map, List.map_map] at listed
  refine listed.mono fun ts hts => hts.trans ?_
  exact (List.map_congr_left fun n _ => rfl).trans (List.map_id ns)

/-- Variables of type `INT`. -/
theorem varDecls_int {ns : List String} (some_name : ns ≠ []) (levels : Nat) :
    Reads d names (varDecls (typeSpec levels) (initializer levels))
      (fun ds => ds.map VarDecl.name = ns) (intWords ns ++ ws) ws := by
  rw [intWords, List.append_assoc]
  refine takePragmas.bind fun _ _ => (nameList some_name rfl).bind fun ts hts => ?_
  refine takePragmas.bind fun _ _ => ?_
  have nowhere : Reads d names placeOf (· = none) (.mark .colon :: .name "INT" :: .mark .semicolon :: ws)
      (.mark .colon :: .name "INT" :: .mark .semicolon :: ws) :=
    .look (not_accept rfl) (ite_neg Bool.false_ne_true (pure rfl))
  refine nowhere.look ((expect rfl).bind fun _ _ => (typeSpec_int levels rfl).bind fun type _ => ?_)
  refine .look (not_accept rfl) (ite_neg Bool.false_ne_true ?_)
  refine .look (pure rfl) (expectSemicolon.bind fun _ _ => ?_)
  exact (declareEach _ _ _ _ _).mono fun ds hds => hds.trans hts

theorem checkDeclSizes (size : Nat) (ds : List VarDecl) :
    Reads d names (checkDeclSizes size ds) (fun _ => True) ws ws := by
  induction ds generalizing size with
  | nil => exact pure trivial
  | cons x ds ih => exact (checkSize _ _).bind fun _ _ => ih _

/-- No reserved word comes where a name does. -/
theorem not_keyword {w : Word} (name : w.lexeme = .name) (k : Keyword) :
    Reads d names (Grammar.accept k) (· = false) (w :: ws) (w :: ws) :=
  not_accept (by rw [Grammar.ahead, name]; rfl)

/-- A block that is no block of constants and says nothing about what is retained. -/
theorem blockModifier_none {w : Word} (name : w.lexeme = .name) (m : Bool × Retain) :
    Reads d names (blockModifier m) (· = none) (w :: ws) (w :: ws) := by
  refine .look (not_keyword name _) (ite_neg Bool.false_ne_true ?_)
  refine .look (not_keyword name _) (ite_neg Bool.false_ne_true ?_)
  exact .look (not_keyword name _) (ite_neg Bool.false_ne_true (pure rfl))

/-- What a semicolon behind a block may be: the word itself, or nothing where another word comes. -/
def OptionalSemicolon (front ws : List Word) : Prop :=
  (∃ w : Word, front = [w] ∧ w.lexeme.is Mark.semicolon = true) ∨
    front = [] ∧ (Grammar.ahead ws 0).is Mark.semicolon = false

theorem accept_semicolon {front : List Word} (h : OptionalSemicolon front ws) :
    Reads d names (Grammar.accept Mark.semicolon) (fun _ => True) (front ++ ws) ws := by
  obtain ⟨w, rfl, semicolon⟩ | ⟨rfl, other⟩ := h
  · exact (accept semicolon).mono fun _ _ => trivial
  · exact (not_accept other).mono fun _ _ => trivial

/-- A block of variables of type `INT`, and a semicolon perhaps. -/
theorem varBlock_int {ns : List String} (some_name : ns ≠ []) {front : List Word}
    (semicolon : OptionalSemicolon front ws) (levels : Nat) :
    Reads d names (varBlock levels) (fun b => b.declarations.map VarDecl.name = ns)
      (intBlockWords ns ++ (front ++ ws)) ws := by
  obtain ⟨n, ns', rfl⟩ := List.exists_cons_of_ne_nil some_name
  cases levels with
  | zero => exact tooDeep
  | succ levels =>
    have begins : intBlockWords (n :: ns') ++ (front ++ ws) =
        .keyword .VAR :: (intWords (n :: ns') ++ .keyword .END_VAR :: (front ++ ws)) := by
      rw [intBlockWords, List.cons_append, List.append_assoc, List.singleton_append]
    rw [begins]
    refine nested (advance.bind fun t ht => ?_)
    have lexeme : t.lexeme = .keyword .VAR := congrArg Word.lexeme ht
    rw [lexeme]
    refine (whileTokens_none (blockModifier_none rfl _)).bind fun (constant, kept) _ => ?_
    refine passes.bind fun passes _ => ?_
    -- Behind the one list of names stands `END_VAR`, so the block has no second declaration.
    have behind : Reads d names (before .END_VAR) (· = false) (.keyword .END_VAR :: (front ++ ws))
        (.keyword .END_VAR :: (front ++ ws)) := .look Reads.lexeme (pure rfl)
    refine (many_once (.look Reads.lexeme (pure (P := (· = true)) rfl))
      ((varDecls_int some_name levels).bind fun ds hds => (checkDeclSizes 0 ds).bind fun _ _ => pure hds)
      behind passes).bind fun ds hds => ?_
    refine .look atEnd (ite_neg Bool.false_ne_true ?_)
    refine advance.bind fun _ _ => (accept_semicolon semicolon).bind fun _ _ => ?_
    refine (node _ _).mono ?_
    rintro _ ⟨s, rfl⟩
    exact hds

/-- One block of variables, and no more. -/
theorem varBlocks_int {ns : List String} (some_name : ns ≠ []) {front : List Word}
    (semicolon : OptionalSemicolon front ws) (last : (Grammar.ahead ws 0).isAmong varBlockWords = false)
    (levels : Nat) : Reads d names (varBlocks levels) (fun bs => namesOf bs = ns)
      (intBlockWords ns ++ (front ++ ws)) ws := by
  refine passes.bind fun passes _ => many_once (.look Reads.lexeme (pure (P := (· = true)) rfl))
    ((varBlock_int some_name semicolon levels).bind fun b hb => (checkSize _ _).bind fun _ _ => pure ?_)
    (.look Reads.lexeme (pure (P := (· = false)) last)) passes
  rwa [namesOf, List.flatMap_singleton]

/-- No variables and no methods come. -/
theorem noMember (last : (Grammar.ahead ws 0).isAmong varBlockWords = false)
    (method : (Grammar.ahead ws 0).is Keyword.METHOD = false) (m : Members) :
    Reads d names (do
      if ← Grammar.sees Keyword.METHOD then return .inr true
      else if ← seesVarBlock then return .inr false
      else return .inl m : Rule (Members ⊕ Bool)) (· = .inl m) ws ws := by
  refine .look (sees _) (ite_neg (by rw [method]; exact Bool.false_ne_true) ?_)
  exact .look (.look Reads.lexeme (pure (P := (· = false)) last)) (ite_neg Bool.false_ne_true (pure rfl))

theorem members_none (last : (Grammar.ahead ws 0).isAmong varBlockWords = false)
    (method : (Grammar.ahead ws 0).is Keyword.METHOD = false) (m : Members) (levels : Nat) :
    Reads d names (members levels m) (· = m) ws ws := by
  refine passes.bind fun passes _ => repeating_done ?_ (Q := (· = m)) rfl passes
  exact noMember last method m

/-- One block of variables, and no more variables or methods. -/
theorem members_int {ns : List String} (some_name : ns ≠ []) {front : List Word}
    (semicolon : OptionalSemicolon front ws) (last : (Grammar.ahead ws 0).isAmong varBlockWords = false)
    (method : (Grammar.ahead ws 0).is Keyword.METHOD = false) (levels : Nat) :
    Reads d names (members levels {}) (fun m => namesOf m.blocks = ns)
      (intBlockWords ns ++ (front ++ ws)) ws := by
  refine passes.bind fun passes _ => repeating_once (x := false) ?_ ?_ (noMember last method) passes
  · refine .look (sees _) (ite_neg Bool.false_ne_true ?_)
    exact .look (.look Reads.lexeme (pure (P := (· = true)) rfl)) (ite_pos rfl (pure rfl))
  · refine ite_neg Bool.false_ne_true ((varBlock_int some_name semicolon levels).bind fun b hb =>
      (checkSize _ _).bind fun _ _ => pure ?_)
    show namesOf [b] = ns
    rwa [namesOf, List.flatMap_singleton]

/-- The last word closes a unit. -/
theorem finishPou (close : Keyword) (opener : Token) :
    Reads d names (finishPou close opener) (fun _ => True) [.keyword close] [] := by
  have closes : (Word.keyword close).lexeme.is close = true := beq_self_eq_true close
  refine .look atEnd (ite_neg Bool.false_ne_true ?_)
  refine (expect closes).bind fun _ _ => ?_
  exact (not_accept rfl).bind fun _ _ => pure trivial

theorem classModifier_none {w : Word} (name : w.lexeme = .name) (m : Bool × Bool) :
    Reads d names (classModifier m) (· = none) (w :: ws) (w :: ws) := by
  refine .look (not_keyword name _) (ite_neg Bool.false_ne_true ?_)
  refine .look (not_keyword name _) (ite_neg Bool.false_ne_true ?_)
  refine .look (not_keyword name _) (ite_neg Bool.false_ne_true ?_)
  exact .look (not_keyword name _) (ite_neg Bool.false_ne_true (pure rfl))

/-- The name of a block that extends and implements nothing. -/
theorem classHeader (noun n : String) (base : (Grammar.ahead ws 0).is Keyword.EXTENDS = false)
    (contract : (Grammar.ahead ws 0).is Keyword.IMPLEMENTS = false) :
    Reads d names (classHeader noun) (fun _ => True) (.name n :: ws) ws := by
  refine (whileTokens_none (classModifier_none rfl _)).bind fun (final, abstract) _ => ?_
  refine (expectAnyName n noun).bind fun t _ => ?_
  refine .look (not_accept base) (ite_neg Bool.false_ne_true (.look (pure rfl) ?_))
  exact .look (not_accept contract) (ite_neg Bool.false_ne_true (.look (pure rfl) (pure trivial)))

/-- The type of a result. -/
theorem returnType_int (levels : Nat) (plain : (Grammar.ahead ws 0).is Mark.leftParen = false) :
    Reads d names (returnType levels) (fun _ => True) (.mark .colon :: .name "INT" :: ws) ws :=
  (accept rfl).look (ite_pos rfl ((typeSpec_int levels plain).map fun _ _ => trivial))

end Grammar.Reads

/-! ### Empty statements -/

/-- The statement is more than a semicolon. -/
def Stmt.isFilled : Stmt → Bool
  | .empty _ => false
  | _ => true

namespace Grammar

section Filled

variable {e : Rule Expr} {r : Rule Stmt}

/-- Whatever statement the rule gives, it is more than a semicolon. -/
abbrev Fills (r : Rule Stmt) : Prop :=
  Returns r (·.isFilled = true)

theorem assignmentOrCall_fills : Fills (assignmentOrCall e) := by
  refine .after fun start => .after fun target => .after fun called => .ite (fun _ => ?_) fun _ => ?_
  · split
    · exact .after fun _ => Triple.fail _
    · refine .after fun args => .after fun known => .ite (fun _ => ?_) fun _ => ?_
      · exact .after fun _ => .node _ fun _ => rfl
      · exact .after fun _ => .after fun _ => .node _ fun _ => rfl
  · refine .after fun l => ?_
    split
    · exact Triple.failExpecting _
    · exact .after fun _ => .after fun _ => .after fun _ => .node _ fun _ => rfl

theorem oneWord_fills {build : Span → Stmt} (h : ∀ s, (build s).isFilled = true) :
    Fills (oneWord build) :=
  .after fun _ => .after fun _ => .node _ h

theorem leaveStmt_fills : Fills (leaveStmt e) := by
  refine .after fun t => .after fun l => ?_
  have last (value : Option Expr) :
      Fills (expectSemicolon >>= fun _ => node t.span fun s => .leave s value) :=
    .after fun _ => .node _ fun _ => rfl
  exact .ite (fun _ => .after last) fun _ => .after last

theorem gotoStmt_fills : Fills gotoStmt :=
  .after fun _ => .after fun _ => .after fun _ => .node _ fun _ => rfl

theorem ifStmt_fills : Fills (ifStmt e r) :=
  .after fun _ => .after fun _ => .after fun _ => .after fun _ => .after fun _ => .after fun _ =>
    .node _ fun _ => rfl

theorem caseStmt_fills : Fills (caseStmt e r) :=
  .after fun _ => .after fun _ => .after fun _ => .after fun _ => .after fun _ => .after fun _ =>
    .after fun _ => .node _ fun _ => rfl

theorem forStmt_fills : Fills (forStmt e r) := by
  refine .after fun t => .after fun d => .ite (fun _ => .after fun _ => ?_) fun _ => ?_
  all_goals
    refine .after fun control => .after fun _ => .after fun start => .after fun _ => .after fun stop => ?_
    refine .after fun stepped => .ite (fun _ => .after fun step => ?_) fun _ => .after fun step => ?_
    all_goals exact .after fun _ => .after fun body => .after fun _ => .node _ fun _ => rfl

theorem whileStmt_fills : Fills (whileStmt e r) :=
  .after fun _ => .after fun _ => .after fun _ => .after fun _ => .after fun _ => .node _ fun _ => rfl

theorem repeatStmt_fills : Fills (repeatStmt e r) :=
  .after fun _ => .after fun _ => .after fun _ => .after fun _ => .after fun _ => .after fun _ =>
    .node _ fun _ => rfl

theorem regionStmt_fills : Fills (regionStmt r) :=
  .after fun _ => .after fun _ => .after fun _ => .after fun _ => .after fun _ => .node _ fun _ => rfl

/-- No semicolon comes. -/
abbrev NoSemicolon : Assertion :=
  fun s c => (s.ahead c 0).lexeme.is Mark.semicolon = false

theorem plainStmt_fills : Triple NoSemicolon (plainStmt e) fun a _ _ => a.isFilled = true := by
  refine Triple.bind (R := fun t _ _ => t.lexeme.is Mark.semicolon = false) ?_ fun t => ?_
  · rintro s c t d other ⟨⟩
    exact other
  · refine .given (fun _ _ other => other) fun other => .ite (fun semicolon => ?_) fun _ => ?_
    · rw [other] at semicolon
      cases semicolon
    · refine Triple.bind_fails fun d => .bind_fails fun l => .ite (fun _ => ?_) fun _ => ?_
      · exact .bind_fails fun _ => .bind_fails fun _ => Returns.node _ fun _ => rfl
      · exact .ite (fun _ => assignmentOrCall_fills) fun _ => .failInvalid _

theorem statementBody_fills : Triple NoSemicolon (statementBody e r) fun a _ _ => a.isFilled = true := by
  have any {r : Rule Stmt} (h : Fills r) : Triple NoSemicolon r fun a _ _ => a.isFilled = true :=
    h.imp fun _ _ _ => trivial
  refine Triple.bind (R := fun _ => NoSemicolon) ?_ fun l => ?_
  · rintro s c l d other ⟨⟩
    exact other
  · split
    · exact any ifStmt_fills
    · exact any caseStmt_fills
    · exact any forStmt_fills
    · exact any whileStmt_fills
    · exact any repeatStmt_fills
    · exact any (oneWord_fills fun _ => rfl)
    · exact any (oneWord_fills fun _ => rfl)
    · exact any leaveStmt_fills
    · exact any gotoStmt_fills
    · exact any regionStmt_fills
    · exact plainStmt_fills

/-- Only a semicolon is read as an empty statement. -/
theorem statement_fills (levels : Nat) :
    Triple NoSemicolon (statement levels) fun a _ _ => a.isFilled = true := by
  cases levels with
  | zero => exact .tooDeep
  | succ levels =>
    refine Stable.nested (fun s c c' rest _ other => ?_) statementBody_fills fun _ _ _ _ _ _ h => h
    rw [NoSemicolon, Setting.ahead, rest]
    exact other

end Filled

end Grammar

/-! ### The first statement behind a block of variables -/

/-- The statements that are left behind a block of variables: a semicolon that comes first is the
block's. -/
def behindVariables : List Stmt → List Stmt
  | .empty _ :: ss => ss
  | ss => ss

theorem behindVariables_filled {a : Stmt} (filled : a.isFilled = true) (ss : List Stmt) :
    behindVariables (a :: ss) = a :: ss := by
  cases a with
  | empty => cases filled
  | _ => rfl

namespace Grammar

section

variable {s : Setting} {c d m : Cursor} {levels n size : Nat} {ss : List Stmt}

/-- A semicolon is read as an empty statement. -/
theorem statement_semicolon {t : Token} {us : List Token} (rest : c.rest = t :: us)
    (semicolon : t.lexeme = .mark .semicolon) (levels : Nat) :
    UnlessLimited (fun a m => (∃ span, a = .empty span) ∧ m.rest = us ∧ m.declared = c.declared)
      (statement levels s c) := by
  cases levels with
  | zero => exact .limit _ _
  | succ levels =>
    have rest : c.enter.rest = t :: us := rest
    have next : s.ahead c.enter 0 = t := by rw [Setting.ahead, rest, List.getD_cons_zero]
    -- Every other kind of statement begins with a word, so a semicolon leaves the plain ones.
    have chosen : statementBody (expression levels) (statement levels) s c.enter =
        (advance >>= fun _ => node t.span .empty) s c.enter := by
      have seen : lexeme s c.enter = .ok (.mark .semicolon) c.enter := by
        rw [← semicolon, ← next]
        rfl
      unfold statementBody
      rw [bind_apply, seen]
      have peeked : peek s c.enter = .ok t c.enter := next ▸ rfl
      show plainStmt (expression levels) s c.enter = _
      unfold plainStmt
      rw [bind_apply, peeked]
      dsimp only
      rw [if_pos (by rw [semicolon]; rfl)]
    refine UnlessLimited.nested ?_ fun _ _ h => h
    rw [chosen, bind_apply, advance_cons rest]
    exact .node fun span _ _ _ => ⟨⟨span, rfl⟩, rfl, rfl⟩

/-- Where a list comes to the end of the tokens, its first token does not end it. -/
theorem many_begins
    (run : many (moreStatements (pure false)) (oneMore (statement levels)) n size s c = .ok ss d)
    (done : d.rest = []) : ∀ t ∈ c.rest.head?, endsStatements t.lexeme = false := by
  intro t ht
  obtain ⟨rest, hc⟩ := List.head?_eq_some_iff.1 ht
  obtain ⟨-, -, rfl⟩ | ⟨begins, -⟩ := many_eq_ok moreStatements_plain run
  · rw [done] at hc
    cases hc
  · rwa [Setting.ahead, hc, List.getD_cons_zero, Bool.not_eq_true'] at begins

/-- A list that comes to the end of the tokens goes on behind its first semicolon, if one comes first. -/
theorem statementList_behind (strict : s.recovers = false) (ends : s.finish.lexeme.isFinish = true)
    (run : statementList (statement levels) s c = .ok ss d) (done : d.rest = []) :
    ∃ front us m n size, c.rest = front ++ us ∧ m.rest = us ∧ m.declared = c.declared ∧
      many (moreStatements (pure false)) (oneMore (statement levels)) n size s m =
        .ok (behindVariables ss) d ∧
      ((∃ t, front = [t] ∧ t.lexeme = .mark .semicolon) ∨
        front = [] ∧ ∀ t ∈ us.head?, t.lexeme.is Mark.semicolon = false) := by
  rw [statementList_apply] at run
  -- An empty list, or a first statement and the others.
  obtain ⟨-, rfl, rfl⟩ | ⟨begins, n, xs, ys, m, -, first, later, rfl⟩ :=
    many_eq_ok moreStatements_plain run
  · exact ⟨[], [], d, _, _, done, done, rfl, run, .inr ⟨rfl, by rintro _ ⟨⟩⟩⟩
  · obtain ⟨a, rfl, read⟩ := oneMore_eq_ok strict first
    cases hc : c.rest with
    | nil =>
      rw [Setting.ahead, hc, List.getD_nil, endsStatements_of_finish ends] at begins
      cases begins
    | cons t us =>
      cases semicolon : t.lexeme.is Mark.semicolon with
      -- A semicolon alone is an empty statement; the list goes on behind it.
      | true =>
        have semicolon := Terminal.is_lexeme semicolon
        have given := statement_semicolon (s := s) hc semicolon levels
        rw [read] at given
        cases given with
        | ok given =>
          obtain ⟨⟨span, rfl⟩, rest, declared⟩ := given
          exact ⟨[t], us, m, n, _, rfl, rest, declared, later, .inl ⟨t, rfl, semicolon⟩⟩
      -- Any other statement is kept, and the list is taken as a whole.
      | false =>
        have filled : a.isFilled = true := by
          refine statement_fills levels ?_ read
          rw [NoSemicolon, Setting.ahead, hc]
          exact semicolon
        have same : behindVariables ([a] ++ ys) = [a] ++ ys := behindVariables_filled filled ys
        rw [same]
        refine ⟨[], t :: us, c, _, _, rfl, hc, rfl, run, .inr ⟨rfl, ?_⟩⟩
        rintro _ ⟨⟩
        exact semicolon

end

end Grammar

end Plc

/-
Balanced books.

While a text is read, account is kept of the constructs that are open, of the names that are declared
around the place, and of the nodes.  A syntax error may leave any mixture of constructs on its way to
where it is recovered from, and closes each of them as a result would.  Only a bound that is passed
leaves the books as they stand, and nothing recovers from it.  So errors take nothing from the number
of constructs that may still be opened.

* `InBalance` — how the books stand where a rule ends, against where it began;
* `OfGrammar`, `OfGrammar.related` — the rules by which texts are read, one case for each;
* `Tried`, `inBalance_of_tried` — one rule, and any number of them, with any number of errors;
* `asked` — a rule that takes from the account how many constructs it may open;
* `asked_eq_entering`, `asked_statement`, `asked_body` — the rules that are told the number beforehand
  are those that look it up wherever a construct is opened;
* `bookkeeping_balanced` — what follows for every rule and every place.
-/
import Mathlib.Logic.Relation
import Plc.Proofs.Grammar.Course
import Plc.Proofs.Nesting.Waiting

namespace Plc.Grammar

variable {α β : Type} {s : Setting} {c c' : Cursor} {n levels : Nat}

/-! ### The books -/

/-- The reading has gone on from the first place to the second, and counted nodes stay counted.  What
was opened or declared on the way is closed and forgotten. -/
structure InBalance (c c' : Cursor) : Prop extends Further c c' where
  depth : c'.usage.depth = c.usage.depth
  declared : c'.declared = c.declared
  nodes : c.usage.nodes ≤ c'.usage.nodes

namespace InBalance

theorem of_further (on : Further c c') (usage : c'.usage = c.usage)
    (declared : c'.declared = c.declared) : InBalance c c' :=
  ⟨on, congrArg Usage.depth usage, declared, Nat.le_of_eq (congrArg Usage.nodes usage.symm)⟩

/-- Around a construct the count of what is open is raised by one and lowered by one, and around a
part with names of its own they are put on the others and taken from them.  Whatever the inside
does, it finds and leaves the same. -/
theorem passage : Passage fun _ c c' => InBalance c c' where
  refl _ c := .of_further (.refl c) rfl rfl
  trans first second :=
    ⟨first.toFurther.trans second.toFurther, second.depth.trans first.depth,
      second.declared.trans first.declared, Nat.le_trans first.nodes second.nodes⟩
  nested {s c c'} inside := by
    have lowered : c'.usage.depth - 1 = c.usage.depth := by
      rw [inside.depth]
      exact Nat.add_sub_cancel ..
    exact ⟨⟨inside.index, inside.rest, inside.pragmas⟩, lowered, inside.declared, inside.nodes⟩
  declaring {s c c'} names inside := by
    have forgotten : c'.declared.tail = c.declared := by
      rw [inside.declared]
      rfl
    exact ⟨⟨inside.index, inside.rest, inside.pragmas⟩, inside.depth, forgotten, inside.nodes⟩
  count s c _ := ⟨Further.course.count s c, rfl, rfl, Nat.le_succ _⟩
  advance s c := by
    have on := Further.course.advance s c
    obtain ⟨rest, _, _, _, _, _, _⟩ := c
    cases rest with
    | nil | cons t rest => exact .of_further on rfl rfl
  take s c pragmas fewer := .of_further (Further.course.take s c pragmas fewer) rfl rfl
  note s c e := .of_further (Further.course.note s c e) rfl rfl

end InBalance

/-- Unless a bound ends the rule, the books are in balance behind it. -/
def Balances (r : Rule α) : Prop :=
  ∀ s c, Settled (r s c) → InBalance c (cursorAfter (r s c))

theorem balances : GrammarCongruence fun _ _ (r : Rule _) => Balances r :=
  InBalance.passage.grammar

/-! ### The rules of the grammar -/

/-- The rules by which a text is read where so many more constructs may be opened: those for
expressions, statements, types and declarations, and any of them with recovery. -/
inductive OfGrammar (levels : Nat) : {α : Type} → Rule α → Prop
  | expression : OfGrammar levels (expression levels)
  | binaryFrom (least : Nat) :
      OfGrammar levels (binaryFrom (unary levels) (powerOperand levels) least)
  | unary : OfGrammar levels (unary levels)
  | powerOperand : OfGrammar levels (powerOperand levels)
  | primary : OfGrammar levels (primary (expression levels))
  | literal (t : Token) (l : Literal) : OfGrammar levels (literal t l)
  | timeLiteral (t : Token) (value : Except Fault Literal.Value) :
      OfGrammar levels (timeLiteral t value)
  | typedLiteral : OfGrammar levels typedLiteral
  | leftValue : OfGrammar levels (leftValue levels)
  | variableOrCall : OfGrammar levels (variableOrCall (expression levels))
  | callArgs : OfGrammar levels (callArgs (expression levels))
  | argument : OfGrammar levels (argument (expression levels))
  | initializer : OfGrammar levels (initializer levels)
  | arrayInit : OfGrammar levels (arrayInit (initializer levels))
  | structInit : OfGrammar levels (structInit (initializer levels))
  | statement : OfGrammar levels (statement levels)
  | statementList : OfGrammar levels (statementList (statement levels))
  | statementListUntil (stop : Dialect → List Token → Bool) :
      OfGrammar levels
        (statementListUntil (do return stop (← dialect) (← tokensLeft)) (statement levels))
  | body (ends : List Keyword) : OfGrammar levels (body levels ends)
  | assignmentOrCall : OfGrammar levels (assignmentOrCall (expression levels))
  | oneWord (build : Span → Stmt) : OfGrammar levels (oneWord build)
  | leaveStmt : OfGrammar levels (leaveStmt (expression levels))
  | gotoStmt : OfGrammar levels gotoStmt
  | ifStmt : OfGrammar levels (ifStmt (expression levels) (statement levels))
  | caseStmt : OfGrammar levels (caseStmt (expression levels) (statement levels))
  | caseSelector : OfGrammar levels (caseSelector (expression levels))
  | forStmt : OfGrammar levels (forStmt (expression levels) (statement levels))
  | whileStmt : OfGrammar levels (whileStmt (expression levels) (statement levels))
  | repeatStmt : OfGrammar levels (repeatStmt (expression levels) (statement levels))
  | regionStmt : OfGrammar levels (regionStmt (statement levels))
  | endConstruct (close : Keyword) (opener : Span) : OfGrammar levels (endConstruct close opener)
  | finishText : OfGrammar levels finishText
  | allStatements (declared : List String) : OfGrammar levels (allStatements levels declared)
  | typeSpec : OfGrammar levels (typeSpec levels)
  | arrayType : OfGrammar levels (arrayType (expression levels) (typeSpec levels))
  | structType : OfGrammar levels (structType (typeSpec levels) (initializer levels))
  | stringType (name : Keyword) : OfGrammar levels (stringType (expression levels) name)
  | namedType : OfGrammar levels (namedType (expression levels))
  | enumType : OfGrammar levels (enumType (expression levels))
  | typeDecl : OfGrammar levels (typeDecl levels)
  | typesDecl : OfGrammar levels (typesDecl levels)
  | takePragmas : OfGrammar levels takePragmas
  | blockAttributes : OfGrammar levels blockAttributes
  | headerExtras : OfGrammar levels headerExtras
  | varDecls : OfGrammar levels (varDecls (typeSpec levels) (initializer levels))
  | varBlock : OfGrammar levels (varBlock levels)
  | varBlocks : OfGrammar levels (varBlocks levels)
  | returnType : OfGrammar levels (returnType levels)
  | pouBody (blocks : List VarBlock) (close : Keyword) :
      OfGrammar levels (pouBody levels blocks close)
  | finishPou (close : Keyword) (opener : Token) : OfGrammar levels (finishPou close opener)
  | programDecl : OfGrammar levels (programDecl levels)
  | functionDecl : OfGrammar levels (functionDecl levels)
  | organizationBlockDecl : OfGrammar levels (organizationBlockDecl levels)
  | dataBlockDecl : OfGrammar levels (dataBlockDecl levels)
  | classHeader (noun : String) : OfGrammar levels (classHeader noun)
  | method : OfGrammar levels (method levels)
  | members (m : Members) : OfGrammar levels (members levels m)
  | functionBlockDecl : OfGrammar levels (functionBlockDecl levels)
  | classDecl : OfGrammar levels (classDecl levels)
  | interfaceDecl : OfGrammar levels (interfaceDecl levels)
  | spaceDecl : OfGrammar levels (spaceDecl (declarationWith functionBlockDecl levels))
  | declaration : OfGrammar levels (declarationWith functionBlockDecl levels)
  | declarationsUntil (close : Option Keyword) :
      OfGrammar levels (declarationsUntil close (declarationWith functionBlockDecl levels))
  | compilationUnit : OfGrammar levels (compilationUnit levels)
  | recovering {α : Type} {r : Rule α} (stops : Lexeme → Bool) (pastSemicolon : Bool) :
      OfGrammar levels r → OfGrammar levels (recovering stops pastSemicolon r)

namespace OfGrammar

/-- A relation that the ways of building rules keep holds between each rule of the grammar and
itself. -/
theorem related {Q : ⦃α : Type⦄ → Rule α → Rule α → Prop} (h : GrammarCongruence Q) {r : Rule α}
    (hr : OfGrammar levels r) : Q r r := by
  have hl : Levels Q levels levels := .refl levels
  have he := h.expression_rel hl
  have hi := h.initializer_rel hl
  have hs := h.statement_rel hl
  have hy := h.typeSpec_rel hl
  have hd := h.declaration_rel hl
  -- One case for each rule; only a rule with recovery is made of another one.
  induction hr with
  | expression => exact he
  | binaryFrom least => exact h.binaryFrom_rel (h.unary_rel hl) (h.powerOperand_rel hl) least
  | unary => exact h.unary_rel hl
  | powerOperand => exact h.powerOperand_rel hl
  | primary => exact h.primary_rel he
  | literal t l => exact h.literal_rel t l
  | timeLiteral t value => exact h.timeLiteral_rel t value
  | typedLiteral => exact h.typedLiteral_rel
  | leftValue => exact h.variableWith_rel he
  | variableOrCall => exact h.variableOrCall_rel he
  | callArgs => exact h.callArgs_rel he
  | argument => exact h.argument_rel he
  | initializer => exact hi
  | arrayInit => exact h.arrayInit_rel hi
  | structInit => exact h.structInit_rel hi
  | statement => exact hs
  | statementList => exact h.statementList_rel hs
  | statementListUntil stop =>
    refine h.statementListUntil_rel ?_ hs
    exact h.bind h.dialect fun d => h.bind h.tokensLeft fun ts => h.pure _
  | body ends => exact h.body_rel hl ends
  | assignmentOrCall => exact h.assignmentOrCall_rel he
  | oneWord build => exact h.oneWord_rel build
  | leaveStmt => exact h.leaveStmt_rel he
  | gotoStmt => exact h.gotoStmt_rel
  | ifStmt => exact h.ifStmt_rel he hs
  | caseStmt => exact h.caseStmt_rel he hs
  | caseSelector => exact h.caseSelector_rel he
  | forStmt => exact h.forStmt_rel he hs
  | whileStmt => exact h.whileStmt_rel he hs
  | repeatStmt => exact h.repeatStmt_rel he hs
  | regionStmt => exact h.regionStmt_rel hs
  | endConstruct close opener => exact h.endConstruct_rel close opener
  | finishText => exact h.finishText_rel
  | allStatements declared => exact h.allStatements_rel hl declared
  | typeSpec => exact hy
  | arrayType => exact h.arrayType_rel he hy
  | structType => exact h.structType_rel hy hi
  | stringType name => exact h.stringType_rel he name
  | namedType => exact h.namedType_rel he
  | enumType => exact h.enumType_rel he
  | typeDecl => exact h.typeDecl_rel hl
  | typesDecl => exact h.typesDecl_rel hl
  | takePragmas => exact h.takePragmas_rel
  | blockAttributes => exact h.blockAttributes_rel
  | headerExtras => exact h.headerExtras_rel
  | varDecls => exact h.varDecls_rel hy hi
  | varBlock => exact h.varBlock_rel hl
  | varBlocks => exact h.varBlocks_rel hl
  | returnType => exact h.returnType_rel hl
  | pouBody blocks close => exact h.pouBody_rel hl blocks close
  | finishPou close opener => exact h.finishPou_rel close opener
  | programDecl => exact h.units.programDecl_rel hl
  | functionDecl => exact h.units.functionDecl_rel hl
  | organizationBlockDecl => exact h.units.organizationBlockDecl_rel hl
  | dataBlockDecl => exact h.units.dataBlockDecl_rel hl
  | classHeader noun => exact h.classHeader_rel noun
  | method => exact h.units.method_rel hl
  | members m => exact h.units.members_rel hl m
  | functionBlockDecl => exact h.functionBlockDecl_rel hl
  | classDecl => exact h.units.classDecl_rel hl
  | interfaceDecl => exact h.units.interfaceDecl_rel hl
  | spaceDecl => exact h.units.spaceDecl_rel hd
  | declaration => exact hd
  | declarationsUntil close => exact h.declarationsUntil_rel close hd
  | compilationUnit => exact h.compilationUnit_rel hl
  | recovering stops pastSemicolon _ ih => exact h.recovering stops pastSemicolon ih

theorem balances {r : Rule α} (hr : OfGrammar levels r) : Balances r :=
  hr.related Grammar.balances

end OfGrammar

/-! ### One rule after another -/

/-- A rule of the grammar is tried at the first place and leaves the reading at the second: with a
result, with a syntax error, or past one that it recovered from. -/
def Tried (s : Setting) (c c' : Cursor) : Prop :=
  ∃ (levels : Nat) (α : Type) (r : Rule α),
    OfGrammar levels r ∧ Settled (r s c) ∧ cursorAfter (r s c) = c'

theorem Tried.inBalance (h : Tried s c c') : InBalance c c' := by
  obtain ⟨levels, α, r, hr, settled, rfl⟩ := h
  exact hr.balances s c settled

theorem inBalance_of_tried (h : Relation.ReflTransGen (Tried s) c c') : InBalance c c' := by
  -- Induction on the number of rules; for each of them an error is one way to end.
  induction h with
  | refl => exact InBalance.passage.refl s c
  | tail _ last ih => exact InBalance.passage.trans (s := s) ih last.inBalance

/-! ### The constructs that may still be opened -/

/-- How many more constructs may be opened at the place. -/
def Setting.room (s : Setting) (c : Cursor) : Nat :=
  s.limits.maxDepth - c.usage.depth

theorem InBalance.room (h : InBalance c c') : s.room c' = s.room c := by
  unfold Setting.room
  rw [h.depth]

theorem room_enter : s.room c.enter = s.room c - 1 :=
  Nat.sub_add_eq ..

/-- A rule that may open as many constructs as there is room for where it begins. -/
def asked (rule : Nat → Rule α) : Rule α := fun s c => rule (s.room c) s c

/-- Opens a construct by the account: the count is raised and checked first, and lowered again behind
the rule. -/
def entering (rule : Rule α) : Rule α := do
  let span := (← peek).span
  modify Cursor.enter
  checkLimit .depth (← get).usage.depth span
  bracket id Cursor.leave rule

/-- A rule that is told how many constructs it may open, and inside each one fewer, looks that up
where it opens one. -/
theorem asked_eq_entering {rule inner : Nat → Rule α} (spent : rule 0 = tooDeep)
    (opens : ∀ n, rule (n + 1) = nested (inner n)) : asked rule = entering (asked inner) := by
  funext s c
  have run : entering (asked inner) s c =
      (checkLimit .depth c.enter.usage.depth (s.next c).span >>= fun _ =>
        bracket id Cursor.leave (asked inner)) s c.enter := rfl
  rw [run, bind_apply, checkLimit_apply, Limits.check]
  have inside := @room_enter s c
  cases room : s.room c with
  | zero =>
    -- No room: the count, raised by one, is above its bound, as the rule that may open none says.
    have full : ¬ c.enter.usage.depth ≤ s.limits.bound .depth :=
      Nat.not_le.2 (Nat.lt_succ_of_le (Nat.sub_eq_zero_iff_le.1 room))
    rw [if_neg full, asked, room, spent]
    rfl
  | succ n =>
    -- Inside the construct there is room for one fewer, which is what the rule is told there.
    have left : 0 < s.room c := by
      rw [room]
      exact Nat.succ_pos n
    have fits : c.enter.usage.depth ≤ s.limits.bound .depth := Nat.lt_of_sub_pos left
    rw [room] at inside
    rw [if_pos fits, asked, room, opens, nested, bracket_apply]
    dsimp only
    rw [bracket_apply, id, asked, inside, Nat.add_sub_cancel]

/-- Where there is room for `n` more constructs the second rule runs like the first, which leaves the
books in balance. -/
def AlikeAt (n : Nat) (r r' : Rule α) : Prop :=
  Balances r ∧ ∀ s c, s.room c = n → r' s c = r s c

namespace AlikeAt

variable {r r' : Rule α}

theorem same (h : Balances r) : AlikeAt n r r :=
  ⟨h, fun _ _ _ => rfl⟩

theorem asked (rule : Nat → Rule α) (h : OfGrammar n (rule n)) :
    AlikeAt n (rule n) (asked rule) := by
  refine ⟨h.balances, fun s c room => ?_⟩
  rw [Grammar.asked, room]

/-- Behind the first rule there is as much room as before it. -/
theorem bind {f f' : α → Rule β} (hr : AlikeAt n r r') (hf : ∀ a, AlikeAt n (f a) (f' a)) :
    AlikeAt n (r >>= f) (r' >>= f') := by
  refine ⟨InBalance.passage.bind hr.1 fun a => (hf a).1, fun s c room => ?_⟩
  have behind := hr.1 s c
  rw [bind_apply, bind_apply, hr.2 s c room]
  cases hrun : r s c with
  | error e c' => rfl
  | ok a c' =>
    rw [hrun] at behind
    exact (hf a).2 s c' ((behind (.ok a c')).room.trans room)

theorem nested (hr : AlikeAt (n - 1) r r') : AlikeAt n (nested r) (nested r') := by
  refine ⟨InBalance.passage.nested_rel hr.1, fun s c room => ?_⟩
  have inside : s.room c.enter = n - 1 := by rw [room_enter, room]
  rw [Grammar.nested, Grammar.nested, bracket_apply, bracket_apply, hr.2 s c.enter inside]

theorem declaring (names : List String) (hr : AlikeAt n r r') :
    AlikeAt n (declaring names r) (declaring names r') := by
  refine ⟨InBalance.passage.declaring_rel names hr.1, fun s c room => ?_⟩
  have around : s.room { c with declared := names :: c.declared } = n := room
  rw [Grammar.declaring, Grammar.declaring, bracket_apply, bracket_apply, hr.2 s _ around]

theorem recovering (stops : Lexeme → Bool) (pastSemicolon : Bool) (hr : AlikeAt n r r') :
    AlikeAt n (recovering stops pastSemicolon r) (recovering stops pastSemicolon r') := by
  refine ⟨InBalance.passage.recovering stops pastSemicolon hr.1, fun s c room => ?_⟩
  -- What is skipped after an error depends on the run of the rule alone.
  unfold Grammar.recovering
  rw [hr.2 s c room]

end AlikeAt

theorem alikeAt_congruence (n : Nat) : Congruence (fun _ (r r' : Rule _) => AlikeAt n r r')
    fun _ (r r' : Rule _) => AlikeAt (n - 1) r r' := by
  have limits : Balances limits := InBalance.passage.still fun _ _ => rfl
  refine Steps.congruence ?_ (.same limits)
  exact {
    pure := fun a => .same (balances.pure a)
    bind := .bind
    throw := fun f => .same (balances.throw f)
    nested := .nested
    declaring := .declaring
    sourceText := .same balances.sourceText
    dialect := .same balances.dialect
    lastStop := .same balances.lastStop
    tokensLeft := .same balances.tokensLeft
    peekAt := fun k => .same (balances.peekAt k)
    advance := .same balances.advance
    takeWaiting := .same balances.takeWaiting
    recordNode := fun span => .same (balances.recordNode span)
    checkLimit := fun kind value span => .same (balances.checkLimit kind value span)
    tooManyPasses := .same balances.tooManyPasses
    tooDeep := .same balances.tooDeep }

/-- Every way of building rules keeps to the room there is; inside a further construct there is less
of it by one. -/
theorem alikeAt (n : Nat) : GrammarCongruence (fun _ (r r' : Rule _) => AlikeAt n r r')
    fun _ (r r' : Rule _) => AlikeAt (n - 1) r r' :=
  { alikeAt_congruence n with
    isDeclared := fun name => .same (balances.isDeclared name)
    recovering := .recovering
    mode := .same balances.mode
    report := fun e => .same (balances.report e) }

theorem asked_eq {rule : Nat → Rule α} {r : Rule α} (h : ∀ n, AlikeAt n (rule n) r) :
    asked rule = r := by
  funext s c
  exact ((h (s.room c)).2 s c rfl).symm

theorem asked_eq_entering_of_alikeAt {rule inner : Nat → Rule α} {r : Rule α}
    (spent : rule 0 = tooDeep) (opens : ∀ n, rule (n + 1) = nested (inner n))
    (h : ∀ n, AlikeAt n (inner n) r) : asked rule = entering r := by
  rw [← asked_eq h]
  exact asked_eq_entering spent opens

/-! ### Rules that look up the room -/

theorem asked_statement :
    asked statement = entering (statementBody (asked expression) (asked statement)) :=
  asked_eq_entering_of_alikeAt rfl (fun _ => rfl) fun n => (alikeAt n).statementBody_rel
    (.asked expression .expression) (.asked statement .statement)

theorem asked_body (ends : List Keyword) :
    asked (fun levels => body levels ends) = bodyWith (asked statement) ends :=
  asked_eq fun n => (alikeAt n).bodyWith_rel (.asked statement .statement) ends

/-! ### Every rule and every place -/

/-- Syntax errors leave the books in balance.  Every rule of the grammar leaves, from every place and
whether or not errors are recovered from, as many constructs open as it found and the same names
declared, goes on over the tokens and takes no node from the count, unless a bound ends it.  So behind
any number of rules, and of errors on the way, there is room for as many constructs as before them;
and what a statement may open is looked up nowhere else, neither for the first statement of a list nor
for one behind errors. -/
theorem bookkeeping_balanced (s : Setting) (c : Cursor) :
    (∀ (levels : Nat) (α : Type) (r : Rule α), OfGrammar levels r → Settled (r s c) →
      InBalance c (cursorAfter (r s c))) ∧
    (∀ c', Relation.ReflTransGen (Tried s) c c' →
      InBalance c c' ∧ s.room c' = s.room c ∧
        asked statement s c' = statement (s.room c) s c') ∧
    asked statement = entering (statementBody (asked expression) (asked statement)) ∧
    ∀ ends, asked (fun levels => body levels ends) = bodyWith (asked statement) ends := by
  refine ⟨fun levels α r hr => hr.balances s c, fun c' tried => ?_, asked_statement, asked_body⟩
  have balance := inBalance_of_tried tried
  have same : s.room c' = s.room c := balance.room
  refine ⟨balance, same, ?_⟩
  rw [asked, same]

/-- The reading of a text in which two statements have errors, one of them inside two parentheses and
the other inside a branch. -/
def brokenBooks : Setting :=
  let source := "a := (1 + (2; IF b THEN c := ; END_IF; d := 3;".toList
  ⟨source, .generic, { maxDepth := 9 }, true, Scanner.finish source.length⟩

/-- A place with three constructs open around it, and names declared by two. -/
def openBooks : Cursor where
  rest := ((tokens .generic brokenBooks.source).toOption.getD []).dropLast
  index := 40
  usage := ⟨3, 120⟩
  declared := [["a", "b"], ["c"]]

/-- The first statement ends with an error, and the list with two of them. -/
theorem bookkeeping_balanced_broken :
    ((outcome (statement 6 brokenBooks openBooks)).toOption.isNone = true ∧
      InBalance openBooks (cursorAfter (statement 6 brokenBooks openBooks))) ∧
    ∃ c', Relation.ReflTransGen (Tried brokenBooks) openBooks c' ∧
      c'.errors.length = 2 ∧ InBalance openBooks c' ∧ brokenBooks.room c' = 6 := by
  obtain ⟨every, behind, -, -⟩ := bookkeeping_balanced brokenBooks openBooks
  have first : Settled (statement 6 brokenBooks openBooks) ∧
      (outcome (statement 6 brokenBooks openBooks)).toOption.isNone = true := by decide +kernel
  have all : Settled (body 6 [] brokenBooks openBooks) ∧
      (cursorAfter (body 6 [] brokenBooks openBooks)).errors.length = 2 := by decide +kernel
  have tried : Relation.ReflTransGen (Tried brokenBooks) openBooks
      (cursorAfter (body 6 [] brokenBooks openBooks)) :=
    .single ⟨6, _, body 6 [], .body [], all.1, rfl⟩
  obtain ⟨balance, room, -⟩ := behind _ tried
  exact ⟨⟨first.2, every 6 _ _ .statement first.1⟩, _, tried, all.2, balance, room⟩

end Plc.Grammar

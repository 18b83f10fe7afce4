/-
Types and declarations come to an end by themselves.

* `typeSpec` — a type passes over a token for each construct that is opened;
* `varBlock`, `method` — so do blocks of variables and methods;
* `declaration` — and declarations, with a token to spare for the error that each may end with.
-/
import Plc.Proofs.Progress.Stmt

namespace Plc.Grammar.Ends

variable {ahead spare : Bool} {n : Nat}

/-! ### Annotations and attributes -/

theorem takeWaiting : Ends ahead n (fun _ => 0) spare fun _ => takeWaiting := by
  refine still fun s c => ?_
  have taken (l : Limits) := takeWaiting_apply (s.raised l) c
  cases found : c.pragmas.lookup c.index with
  | none =>
    simp only [found] at taken
    exact ⟨_, _, rfl, rfl, rfl, .of_all fun _ l => taken l⟩
  | some ts =>
    simp only [found] at taken
    exact ⟨_, { c with pragmas := c.pragmas.filter (·.1 != c.index) }, rfl, rfl, rfl,
      .of_all fun _ l => taken l⟩

theorem recordPragmas (ps : List Pragma) :
    Ends ahead n (fun _ => 0) spare fun _ => recordPragmas ps := by
  induction ps generalizing ahead with
  | nil => exact done rfl
  | cons p ps ih => exact (recordNode _).next fun _ => ih

theorem takePragmas : Ends ahead n (fun _ => 0) spare fun _ => takePragmas := by
  unfold Grammar.takePragmas
  exact takeWaiting.next fun _ => (recordPragmas _).next fun _ => done rfl

theorem blockAttributes : Ends ahead n (fun _ => 0) spare fun _ => blockAttributes := by
  unfold Grammar.blockAttributes
  refine look .dialect fun d => ite (fun _ => ?_) fun _ => done rfl
  refine repeating (fun attributes => ?_) []
  simp only [bind_assoc]
  refine peek (fun t => ?_) fun t finish => ?_
  · by_cases key : (t.lexeme.isName && attributeNames.contains (Text.upper t.text)) = true
    · simp only [if_pos key, pure_bind]
      refine ite (fun _ => advance.bind fun _ => done rfl) fun _ => look (.lexemeAt 1) fun l => ?_
      refine ite (fun _ => ?_) fun _ => done rfl
      exact advance.bind fun _ => step.bind fun t => look (.restOfLine _) fun _ =>
        (skipBefore _).bind fun _ => done rfl
    · simp only [if_neg key, pure_bind]
      exact done rfl
  · simp only [finish, Lexeme.isName, Bool.false_and, Bool.false_eq_true, if_false, pure_bind]
    exact done rfl

theorem headerExtras : Ends ahead n (fun _ => 0) spare fun _ => headerExtras := by
  unfold Grammar.headerExtras
  exact takePragmas.next fun _ => blockAttributes.next fun _ => takePragmas.next fun _ => done rfl

/-! ### Variables -/

theorem declareEach (type : TypeSpec) (address : Option String) (initial : Option Expr)
    (pragmas : List Pragma) (names : List Token) :
    Ends ahead n (fun _ => 0) spare fun _ => declareEach type address initial pragmas names := by
  induction names generalizing ahead with
  | nil => exact done rfl
  | cons name names ih => exact (node fun _ => rfl).next fun _ => ih.next fun _ => done rfl

theorem placeOf : Ends ahead n (fun _ => 0) spare fun _ => placeOf := by
  unfold Grammar.placeOf
  refine (accept _).next fun b => ite (fun _ => look .lexeme fun l => ?_) fun _ => done rfl
  split
  · exact step.map
  · exact failExpecting _

section Types

variable {ty : Nat → Rule TypeSpec}

theorem varDecls (hty : Ends false n (fun _ => 1) spare ty) :
    Ends ahead n (fun _ => 1) spare fun levels =>
    varDecls (ty levels) (Grammar.initializer levels) := by
  have names : Ends false n (fun _ => 1) spare fun _ =>
      Grammar.commaList (Grammar.expectAnyName "variable name") Token.span :=
    commaList (expectAnyName _) (expectAnyName _).free
  unfold Grammar.varDecls
  refine takePragmas.bind fun before => names.lead fun names => takePragmas.next fun after =>
    placeOf.next fun address => (expect _).next fun _ => hty.next fun type =>
      (accept _).next fun b => ?_
  refine choose (initializer n).map (Ends.pure none) fun initial => ?_
  exact expectSemicolon.next fun _ => declareEach _ _ _ _ _

/-! ### Types -/

theorem fieldsOf (size : Nat) (ds : List VarDecl) :
    Ends ahead n (fun _ => 0) spare fun _ => fieldsOf size ds := by
  induction ds generalizing ahead size with
  | nil => exact done rfl
  | cons d ds ih =>
    exact (node fun _ => rfl).next fun _ => (checkSize _ _).next fun _ => (ih _).next fun _ =>
      done rfl

theorem failUnclosed {α : Type} {need : α → Nat} (opener : Token) (close : Keyword) :
    Ends ahead n need spare fun _ => (failUnclosed opener close : Rule α) :=
  fail _

theorem looks_before (close : Keyword) : Looks (before close) :=
  .bind .lexeme fun _ => .pure _

theorem goes_of_before {close : Keyword} {s : Setting} {c : Cursor}
    (seen : before close s c = .ok true c) : (s.next c).lexeme.isFinish = false := by
  have more : (!((s.next c).lexeme.isFinish || (s.next c).lexeme.is close)) = true :=
    (EStateM.Result.ok.inj seen).1
  simp only [Bool.not_eq_true', Bool.or_eq_false_iff] at more
  exact more.1

/-- What stands between a first word and the one that closes it. -/
theorem manyBefore {α : Type} {close : Keyword} {item : Nat → Nat → Rule (List α)}
    (hitem : ∀ size, Ends true n (fun _ => 1) spare fun levels => item levels size) (size : Nat) :
    Ends ahead n (fun _ => 0) spare fun levels =>
      passes >>= fun p => Grammar.many (before close) (item levels) p size :=
  manyAhead (looks_before close) (fun _ _ _ seen => goes_of_before seen) hitem size

/-- Behind a loop, the word that closes it, unless the text ends. -/
theorem unlessClosed {β : Type} {opener : Token} {close : Keyword} {f : Nat → Rule β}
    (hf : Ends false n (fun _ => 0) spare f) : Ends ahead n (fun _ => 0) spare fun levels =>
      Grammar.atEnd >>= fun b =>
        if b then (Grammar.failUnclosed opener close : Rule Unit) >>= fun _ => f levels
        else f levels :=
  have unclosed : Ends ahead n (fun _ => 0) spare fun _ =>
    (Grammar.failUnclosed opener close : Rule Unit) := failUnclosed opener close
  look .atEnd fun _ => ite (fun _ => unclosed.next fun _ => hf) fun _ => hf.any

theorem structType (hty : ∀ m < n, Ends false m (fun _ => 1) spare ty) :
    Ends true n (fun _ => 1) spare fun levels =>
      structType (ty levels) (Grammar.initializer levels) := by
  unfold Grammar.structType
  refine advance.inside fun m less t => ?_
  refine (manyBefore (fun size => ?_) 0).follow fun fields => ?_
  · exact (varDecls (hty m less)).lead fun ds => fieldsOf _ ds
  · exact unlessClosed (step.next fun _ => node fun _ => rfl)

theorem dimension : Ends false n (fun _ => 1) spare fun levels =>
    dimension (Grammar.expression levels) := by
  unfold Grammar.dimension
  exact look .peek fun start => (expression n).lead fun low => (expect _).next fun _ =>
    (expression n).next fun high => node fun _ => rfl

theorem arrayType (hty : ∀ m < n, Ends false m (fun _ => 1) spare ty) :
    Ends true n (fun _ => 1) spare fun levels =>
      arrayType (Grammar.expression levels) (ty levels) := by
  unfold Grammar.arrayType
  exact advance.inside fun m less t => (expect _).next fun opener =>
    (commaList dimension dimension.free).next fun dims => (expectClosing _ _ _).next fun _ =>
      (expect _).next fun _ => (hty m less).next fun element => node fun _ => rfl

theorem lengthOf :
    Ends ahead n (fun _ => 0) spare fun levels => lengthOf (Grammar.expression levels) := by
  unfold Grammar.lengthOf
  refine (accept _).next fun b => ite (fun _ => ?_) fun _ => (accept _).next fun b =>
    ite (fun _ => ?_) fun _ => done rfl
  all_goals exact (expression n).next fun e => (expect _).next fun _ => done rfl

theorem stringType (name : Keyword) : Ends true n (fun _ => 1) spare fun levels =>
    stringType (Grammar.expression levels) name := by
  unfold Grammar.stringType
  exact advance.lead fun t => lengthOf.next fun length => node fun _ => rfl

theorem namedType : Ends ahead n (fun _ => 1) spare fun levels =>
    namedType (Grammar.expression levels) := by
  unfold Grammar.namedType
  refine (expectAnyName _).lead fun t => ?_
  dsimp only
  split
  · exact node fun _ => rfl
  · refine (accept _).next fun b => ite (fun _ => ?_) fun _ => node fun _ => rfl
    exact (expression n).next fun low => (expect _).next fun _ => (expression n).next fun high =>
      (expect _).next fun _ => node fun _ => rfl

theorem typeSpecBody (hty : ∀ m < n, Ends false m (fun _ => 1) spare ty) :
    Ends false n (fun _ => 1) spare fun levels =>
      typeSpecBody (Grammar.expression levels) (Grammar.initializer levels) (ty levels) := by
  unfold Grammar.typeSpecBody
  refine peek (fun t => ?_) fun t finish => ?_
  · split
    · exact arrayType hty
    · exact (structType hty).lead fun _ => done rfl
    · exact advance.inside fun m less _ => (hty m less).next fun inner => node fun _ => rfl
    · exact stringType _
    · exact stringType _
    · refine look (.lexemeAt 1) fun l => ite (fun _ => ?_) fun _ => namedType
      exact advance.inside fun m less _ => step.next fun _ => (hty m less).next fun inner =>
        node fun _ => rfl
    · exact namedType
    · exact failInvalid _
  · simp only [finish]
    exact failInvalid _

end Types

theorem typeSpec (n : Nat) : Ends false n (fun _ => 1) spare typeSpec := by
  induction n using Nat.strongRecOn with
  | ind n ih => exact deeper (fun levels => by rw [Grammar.typeSpec]) (typeSpecBody ih)

theorem enumMember : Ends false n (fun _ => 1) spare fun levels =>
    enumMember (Grammar.expression levels) := by
  unfold Grammar.enumMember
  refine (expectName _).lead fun name => (accept _).next fun b => ?_
  exact choose (expression n).map (Ends.pure none) fun value => node fun _ => rfl

theorem builtInOf : Ends ahead n (fun _ => 0) spare fun _ => builtInOf := by
  unfold Grammar.builtInOf
  refine look .peek fun t => ?_
  split
  · exact step.next fun _ => done rfl
  · exact done rfl

theorem enumType : Ends true n (fun _ => 1) spare fun levels =>
    enumType (Grammar.expression levels) := by
  unfold Grammar.enumType
  exact advance.lead fun opener => (commaList enumMember enumMember.free).next fun members =>
    (expectClosing _ _ _).next fun _ => builtInOf.next fun base => node fun _ => rfl

/-! ### Blocks of variables and of types -/

/-- One of several words that something new follows from. -/
theorem orElse {α : Type} {t : Terminal} {a : α} {r : Nat → Rule (Option α)}
    (hr : Ends false n (fun o => o.isSome.toNat) spare r) :
    Ends ahead n (fun o => o.isSome.toNat) spare fun levels =>
      Grammar.accept t >>= fun b => if b then Pure.pure (some a) else r levels :=
  (accept t).bind fun _ => ite (fun yes => done (yes ▸ rfl)) fun _ =>
    hr.less fun _ => Nat.sub_le _ _

theorem blockModifier (m : Bool × Retain) :
    Ends ahead n (fun o => o.isSome.toNat) spare fun _ => blockModifier m := by
  unfold Grammar.blockModifier
  exact orElse (orElse (orElse (done rfl)))

theorem checkDeclSizes (size : Nat) (ds : List VarDecl) :
    Ends ahead n (fun _ => 0) spare fun _ => checkDeclSizes size ds := by
  induction ds generalizing ahead size with
  | nil => exact done rfl
  | cons d ds ih => exact (checkSize _ _).next fun _ => ih _

theorem varBlock : Ends true n (fun _ => 1) spare varBlock := by
  suffices block : Ends true n (fun _ => 1) spare fun levels =>
      varBlockBody (Grammar.typeSpec levels) (Grammar.initializer levels) from
    deeper (fun levels => by rw [Grammar.varBlock]) block
  unfold Grammar.varBlockBody
  refine advance.lead fun t => ?_
  dsimp only
  split
  · exact fail _
  · refine (whileTokens (fun m => blockModifier m) _).next fun modifiers => ?_
    refine (manyBefore (fun size => ?_) 0).follow fun decls => ?_
    · exact (varDecls (typeSpec n)).lead fun ds => (checkDeclSizes _ ds).next fun _ => done rfl
    · exact unlessClosed (step.next fun _ => (accept _).next fun _ => node fun _ => rfl)

theorem looks_seesVarBlock : Looks seesVarBlock :=
  .bind .lexeme fun _ => .pure _

theorem goes_of_isAmong {l : Lexeme} {ks : List Keyword} (h : l.isAmong ks = true) :
    l.isFinish = false := by
  cases l <;> first | rfl | cases h

theorem goes_of_seesVarBlock {s : Setting} {c : Cursor} (seen : seesVarBlock s c = .ok true c) :
    (s.next c).lexeme.isFinish = false :=
  goes_of_isAmong (EStateM.Result.ok.inj seen).1

theorem varBlocks : Ends ahead n (fun _ => 0) spare varBlocks := by
  unfold Grammar.varBlocks
  refine manyAhead looks_seesVarBlock (fun _ _ _ => goes_of_seesVarBlock) (fun size => ?_) 0
  exact varBlock.lead fun block => (checkSize _ _).next fun _ => done rfl

theorem typeColon : Ends ahead n (fun _ => 0) spare fun _ => typeColon := by
  unfold Grammar.typeColon
  refine (accept _).next fun b => ite (fun _ => done rfl) fun _ => look .dialect fun d =>
    ite (fun _ => ?_) fun _ => failExpecting _
  exact blockAttributes.next fun _ => takePragmas.next fun _ => done rfl

theorem typeDecl : Ends ahead n (fun _ => 1) spare typeDecl := by
  unfold Grammar.typeDecl
  refine (expectAnyName _).lead fun name => typeColon.next fun _ => ?_
  refine sees (enumType.next fun type => ?_) ((typeSpec n).next fun type => ?_)
  all_goals
    refine (accept _).next fun b => ?_
    exact choose (initializer n).map (Ends.pure none) fun initial => (accept _).next fun _ =>
      node fun _ => rfl

theorem typesDecl : Ends true n (fun _ => 1) spare typesDecl := by
  unfold Grammar.typesDecl
  refine advance.lead fun t => takePragmas.next fun first => ?_
  refine (manyBefore (fun size => ?_) 0).follow fun items => ?_
  · exact takePragmas.bind fun _ => typeDecl.lead fun d => (checkSize _ _).next fun _ => done rfl
  · exact unlessClosed (step.next fun _ => (accept _).next fun _ => node fun _ => rfl)

/-! ### Program organization units -/

theorem pouBody (blocks : List VarBlock) (close : Keyword) :
    Ends ahead n (fun _ => 0) false fun levels => pouBody levels blocks close := by
  unfold Grammar.pouBody
  exact ((accept _).next fun _ => body [close]).declaring _

theorem finishPou (close : Keyword) (opener : Token) :
    Ends ahead n (fun _ => 0) spare fun _ => finishPou close opener := by
  unfold Grammar.finishPou
  exact unlessClosed ((expect _).next fun _ => (accept _).next fun _ => done rfl)

theorem returnType : Ends ahead n (fun _ => 0) spare returnType := by
  unfold Grammar.returnType
  exact (accept _).next fun b => ite (fun _ => (typeSpec n).map) fun _ => done rfl

theorem programDecl : Ends true n (fun _ => 1) spare programDecl := by
  unfold Grammar.programDecl
  exact advance.first fun m _ t => (expectAnyName _).next fun name =>
    headerExtras.next fun extras => varBlocks.next fun blocks => (pouBody blocks _).next fun _ =>
      (finishPou _ t).next fun _ => node fun _ => rfl

theorem functionDecl : Ends true n (fun _ => 1) spare functionDecl := by
  unfold Grammar.functionDecl
  exact advance.first fun m _ t => (expectAnyName _).next fun name => returnType.next fun type =>
    headerExtras.next fun extras => varBlocks.next fun blocks => (pouBody blocks _).next fun _ =>
      (finishPou _ t).next fun _ => node fun _ => rfl

theorem organizationBlockDecl : Ends true n (fun _ => 1) spare organizationBlockDecl := by
  unfold Grammar.organizationBlockDecl
  exact advance.first fun m _ t => (expectAnyName _).next fun name =>
    headerExtras.next fun extras => varBlocks.next fun blocks => (pouBody blocks _).next fun _ =>
      (finishPou _ t).next fun _ => node fun _ => rfl

/-! ### Data blocks -/

theorem variablesOf (fields : List StructField) :
    Ends ahead n (fun _ => 0) spare fun _ => variablesOf fields := by
  unfold Grammar.variablesOf
  induction fields generalizing ahead with
  | nil => exact done rfl
  | cons f fields ih =>
    simp only [List.mapM_cons]
    exact (node fun _ => rfl).next fun _ => ih.next fun _ => done rfl

theorem dataBlockBase : Ends ahead n (fun _ => 0) spare dataBlockBase := by
  unfold Grammar.dataBlockBase
  refine peek (fun start => ?_) fun start finish => ?_
  · split
    · exact advance.next fun _ => done rfl
    · exact advance.next fun _ => done rfl
    · exact (structType fun m _ => typeSpec m).next fun _ => (accept _).next fun _ =>
        (variablesOf _).next fun _ => (node fun _ => rfl).next fun _ => done rfl
    · exact done rfl
  · simp only [finish]
    exact done rfl

theorem dataBlockDecl : Ends true n (fun _ => 1) spare dataBlockDecl := by
  unfold Grammar.dataBlockDecl
  exact advance.first fun m _ t => (expectAnyName _).next fun name =>
    headerExtras.next fun extras => dataBlockBase.next fun base => varBlocks.next fun blocks =>
      (pouBody _ _).next fun _ => (finishPou _ t).next fun _ => node fun _ => rfl

/-! ### Methods and classes -/

/-- A word that changes something is passed over. -/
theorem advanceIf {α : Type} (changed : Option α) :
    Ends true n (fun o => o.isSome.toNat) spare fun _ =>
      if changed.isSome then Grammar.advance >>= fun _ => Pure.pure changed
      else Pure.pure changed := by
  cases changed with
  | none => exact done rfl
  | some a => exact advance.bind fun _ => done rfl

theorem methodModifier (m : MethodModifiers) :
    Ends ahead n (fun o => o.isSome.toNat) spare fun _ => methodModifier m := by
  unfold Grammar.methodModifier
  exact lexeme (fun l => advanceIf _) (done rfl)

theorem method : Ends true n (fun _ => 1) spare method := by
  refine deeper (fun levels => by rw [Grammar.method]) ?_
  unfold Grammar.methodBody
  exact advance.first fun m _ t => (whileTokens (fun m => methodModifier m) _).next fun modifiers =>
    (expectAnyName _).next fun name => returnType.next fun type => varBlocks.next fun blocks =>
      (pouBody blocks _).next fun _ => (finishPou _ t).next fun _ => node fun _ => rfl

theorem members (m : Members) : Ends ahead n (fun _ => 0) spare fun levels => members levels m := by
  unfold Grammar.members
  refine repeating (fun m => ?_) m
  simp only [bind_assoc]
  refine sees ?_ ?_
  · simp only [if_true, pure_bind]
    exact Ends.declaring _ (method.bind fun x => (checkSize _ _).bind fun _ => done rfl)
  · simp only [Bool.false_eq_true, if_false, bind_assoc]
    refine sight looks_seesVarBlock (fun _ _ _ => goes_of_seesVarBlock) ?_ ?_
    · simp only [if_true, pure_bind, Bool.false_eq_true, if_false]
      exact varBlock.bind fun block => (checkSize _ _).bind fun _ => done rfl
    · exact done rfl

theorem classModifier (m : Bool × Bool) :
    Ends ahead n (fun o => o.isSome.toNat) spare fun _ => classModifier m := by
  unfold Grammar.classModifier
  exact orElse (orElse (orElse (orElse (done rfl))))

theorem interfaceNames : Ends ahead n (fun _ => 0) spare fun _ => interfaceNames := by
  unfold Grammar.interfaceNames
  exact commaList (expectAnyName _).map (expectAnyName _).map

theorem classHeader (noun : String) :
    Ends ahead n (fun _ => 0) spare fun _ => classHeader noun := by
  unfold Grammar.classHeader
  refine (whileTokens (fun m => classModifier m) _).next fun modifiers =>
    (expectAnyName _).next fun name => (accept _).next fun b => ?_
  refine choose (expectAnyName _).map (Ends.pure none) fun base => (accept _).next fun b => ?_
  exact choose interfaceNames (Ends.pure []) fun implements => done rfl

theorem functionBlockWith {stmts : Nat → Rule (List Stmt)}
    (hs : ∀ m, Ends false m (fun _ => 0) false stmts) :
    Ends true n (fun _ => 1) spare fun levels => functionBlockWith (stmts levels) levels := by
  unfold Grammar.functionBlockWith
  refine advance.first fun m _ t => (classHeader _).next fun header =>
    headerExtras.next fun extras => (members _).next fun first => ?_
  have read : Ends false m (fun _ => 0) false fun levels =>
      Grammar.accept Keyword.BEGIN >>= fun _ => stmts levels >>= fun ss =>
        Grammar.members levels first >>= fun all => Pure.pure (ss, all) :=
    (accept _).next fun _ => (hs m).next fun _ => (members first).next fun all => done rfl
  exact (read.declaring _).next fun read => (finishPou _ t).next fun _ => node fun _ => rfl

theorem functionBlockDecl : Ends true n (fun _ => 1) spare functionBlockDecl := by
  unfold Grammar.functionBlockDecl
  exact functionBlockWith fun m => body _

theorem classDecl : Ends true n (fun _ => 1) spare classDecl := by
  unfold Grammar.classDecl
  exact advance.first fun m _ t => (classHeader _).next fun header => (members _).next fun first =>
    (finishPou _ t).next fun _ => node fun _ => rfl

theorem interfaceDecl : Ends true n (fun _ => 1) spare interfaceDecl := by
  unfold Grammar.interfaceDecl
  refine advance.first fun m _ t => (expectAnyName _).next fun name => (accept _).next fun b => ?_
  refine choose interfaceNames (Ends.pure []) fun parents => ?_
  refine (manySeen (fun size => ?_) 0).follow fun methods => (finishPou _ t).next fun _ =>
    node fun _ => rfl
  exact method.lead fun x => (checkSize _ _).next fun _ => done rfl

/-! ### Declarations -/

theorem dottedName : Ends ahead n (fun _ => 1) spare fun _ => dottedName := by
  unfold Grammar.dottedName
  refine (expectName _).lead fun first => whileTokens (fun path => ?_) first.text
  refine (accept _).bind fun b => ite (fun yes => ?_) fun _ => done (Nat.zero_sub _)
  exact (expectName _).bind fun t => done (by rw [yes]; rfl)

theorem declarationsUntil (close : Option Keyword) {d : Nat → Rule (Option Decl)}
    (hd : Ends true n (fun _ => 1) true d) :
    Ends ahead n (fun _ => 0) false fun levels => declarationsUntil close (d levels) := by
  unfold Grammar.declarationsUntil
  refine manyAhead (.bind .lexeme fun _ => .pure _) (fun s c _ seen => ?_) (fun size => ?_) 0
  · have more := (EStateM.Result.ok.inj seen).1
    simp only [Bool.not_eq_true', Bool.or_eq_false_iff] at more
    exact more.1
  · refine (recovering hd).lead fun o => ?_
    split
    · exact (checkSize _ _).next fun _ => done rfl
    · exact done rfl

theorem spaceDecl {d : Nat → Rule (Option Decl)} (hd : ∀ m < n, Ends true m (fun _ => 1) true d) :
    Ends true n (fun _ => 1) spare fun levels => spaceDecl (d levels) := by
  unfold Grammar.spaceDecl
  refine advance.first fun m less t => (accept _).next fun internal =>
    dottedName.next fun name => ?_
  refine Ends.follow (many (fun size => ?_) 0) fun usings => ?_
  · unfold manyPass
    refine (accept _).bind fun b => ite (fun yes => ?_) fun _ => done (Nat.zero_sub _)
    have path : Ends false m (fun _ => 0) false fun _ => Grammar.dottedName >>= fun path =>
        Grammar.expectSemicolon >>= fun _ => Grammar.checkSize (size + 1) Span.zero >>= fun _ =>
          (Pure.pure [path] : Rule (List String)) :=
      dottedName.next fun path => expectSemicolon.next fun _ => (checkSize _ _).next fun _ =>
        done rfl
    exact path.map.less fun o => by cases yes; cases o <;> exact Nat.le_refl _
  · exact (declarationsUntil _ (hd m less)).next fun ds => (finishPou _ t).next fun _ =>
      node fun _ => rfl

theorem pouDecl {r : Nat → Rule Pou} (hr : Ends ahead n (fun _ => 1) spare r) :
    Ends ahead n (fun _ => 1) spare fun levels => pouDecl (r levels) := by
  unfold Grammar.pouDecl
  simp only [map_eq_pure_bind]
  exact hr.lead fun _ => done rfl

theorem declarationBody {d : Nat → Rule (Option Decl)}
    (hd : ∀ m < n, Ends true m (fun _ => 1) true d) : Ends true n (fun _ => 1) true fun levels =>
      declarationBody (Grammar.functionBlockDecl levels) (d levels) levels := by
  unfold Grammar.declarationBody
  refine look .peek fun t => ?_
  split
  · exact pouDecl programDecl
  · exact pouDecl functionDecl
  · exact pouDecl functionBlockDecl
  · exact pouDecl classDecl
  · exact pouDecl interfaceDecl
  · refine pouDecl ?_
    simp only [map_eq_pure_bind]
    exact method.lead fun _ => done rfl
  · exact pouDecl dataBlockDecl
  · exact pouDecl organizationBlockDecl
  · simp only [map_eq_pure_bind]
    exact typesDecl.lead fun _ => done rfl
  · refine varBlock.lead fun block => ?_
    exact (node fun _ => rfl).map
  · simp only [map_eq_pure_bind]
    exact (spaceDecl hd).lead fun _ => done rfl
  · exact advance.lead fun _ => done rfl
  · exact failExpecting _

theorem declaration (n : Nat) :
    Ends true n (fun _ => 1) true (declarationWith Grammar.functionBlockDecl) := by
  -- The declarations inside a namespace come behind its first word.
  induction n using Nat.strongRecOn with
  | ind n ih => exact deeper (fun levels => by rw [declarationWith]) (declarationBody ih)

theorem compilationUnit (n : Nat) : Ends ahead n (fun _ => 0) false compilationUnit := by
  unfold Grammar.compilationUnit Grammar.unitWith
  exact (declarationsUntil none (declaration n)).next fun ds => look .sourceText fun _ =>
    (recordNode _).next fun _ => done rfl

end Plc.Grammar.Ends

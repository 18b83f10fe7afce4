/-
The rules for types and declarations, seen by relations that the ways of building rules keep.

What may follow a body depends on whether errors are recovered from, so a relation has to
keep a body together with the word that closes it.  A function block may go on after its
body with variables and methods; for it the relation is a hypothesis.

* `typeSpec_rel`, `varBlock_rel`, `method_rel` — the recursive rules;
* `unitWith_rel` — whole texts;
* `GrammarCongruence.compilationUnit_rel` — without hypotheses.
-/
import Plc.Proofs.Grammar.StmtCongruence

namespace Plc.Grammar

variable {Q N : ⦃α : Type⦄ → Rule α → Rule α → Prop}
variable {e e' i i' : Rule Expr} {y y' : Rule TypeSpec} {levels levels' : Nat}

namespace Congruence

section Parts

variable (h : Congruence Q N)
include h

/-! ### Annotations and attributes -/

theorem recordPragmas_rel (ps : List Pragma) : Q (recordPragmas ps) (recordPragmas ps) := by
  induction ps with
  | nil => exact h.pure _
  | cons p ps ih => exact h.bind (h.recordNode _) fun _ => ih

theorem takePragmas_rel : Q takePragmas takePragmas := by
  unfold takePragmas
  refine h.bind h.takeWaiting fun ts => ?_
  exact h.bind (recordPragmas_rel h _) fun _ => h.pure _

theorem blockAttributes_rel : Q blockAttributes blockAttributes := by
  unfold blockAttributes
  refine h.bind h.dialect fun d => h.ite (h.repeating (fun a => ?_) (fun a key => ?_) _) (h.pure _)
  · exact h.bind h.peek_rel fun t => h.pure _
  · refine h.ite (h.bind h.advance fun _ => h.pure _) ?_
    refine h.bind (h.lexemeAt_rel _) fun separator => h.ite ?_ (h.pure _)
    refine h.bind h.advance fun _ => ?_
    refine h.bind h.advance fun t => ?_
    refine h.bind (restOfLine_rel h _) fun (value, lineEnd) => ?_
    exact h.bind (skipBefore_rel h _) fun _ => h.pure _

theorem headerExtras_rel : Q headerExtras headerExtras := by
  unfold headerExtras
  refine h.bind (takePragmas_rel h) fun before => ?_
  refine h.bind (blockAttributes_rel h) fun attributes => ?_
  exact h.bind (takePragmas_rel h) fun after => h.pure _

/-! ### Variables -/

theorem declareEach_rel (type : TypeSpec) (address : Option String) (initial : Option Expr)
    (pragmas : List Pragma) (names : List Token) :
    Q (declareEach type address initial pragmas names)
      (declareEach type address initial pragmas names) := by
  induction names with
  | nil => exact h.pure _
  | cons name names ih =>
    refine h.bind (h.node_rel _ _) fun d => ?_
    exact h.bind ih fun ds => h.pure _

theorem placeOf_rel : Q placeOf placeOf := by
  unfold placeOf
  refine h.bind (h.accept_rel _) fun b => h.ite ?_ (h.pure _)
  refine h.bind h.lexeme_rel fun l => ?_
  split
  · exact h.map _ h.advance
  · exact h.failExpecting_rel _

theorem varDecls_rel (hy : Q y y') (hi : Q i i') : Q (varDecls y i) (varDecls y' i') := by
  unfold varDecls
  refine h.bind (takePragmas_rel h) fun before => ?_
  refine h.bind (h.commaList _ (h.expectAnyName_rel _)) fun names => ?_
  refine h.bind (takePragmas_rel h) fun after => ?_
  refine h.bind (placeOf_rel h) fun address => ?_
  refine h.bind (h.expect_rel _) fun _ => ?_
  refine h.bind hy fun type => ?_
  refine h.bind (h.accept_rel _) fun b => ?_
  refine h.choose (h.map _ hi) (h.pure _) fun initial => ?_
  exact h.bind h.expectSemicolon_rel fun _ => declareEach_rel h _ _ _ _ _

/-! ### Types -/

theorem fieldsOf_rel (size : Nat) (ds : List VarDecl) : Q (fieldsOf size ds) (fieldsOf size ds) := by
  induction ds generalizing size with
  | nil => exact h.pure _
  | cons d ds ih =>
    refine h.bind (h.node_rel _ _) fun field => ?_
    refine h.bind (h.checkSize_rel _ _) fun _ => ?_
    exact h.bind (ih _) fun fields => h.pure _

theorem before_rel (close : Keyword) : Q (before close) (before close) := by
  unfold before
  exact h.bind h.lexeme_rel fun l => h.pure _

theorem structType_rel (hy : Q y y') (hi : Q i i') : Q (structType y i) (structType y' i') := by
  unfold structType
  refine h.bind h.advance fun t => ?_
  refine h.follow (h.many (before_rel h _) (fun size => ?_) 0) fun fields => ?_
  · exact h.bind (varDecls_rel h hy hi) fun ds => fieldsOf_rel h _ _
  refine h.bind h.atEnd_rel fun b => h.unless (h.fail_rel _) fun _ => ?_
  exact h.bind h.advance fun _ => h.node_rel _ _

theorem dimension_rel (he : Q e e') : Q (dimension e) (dimension e') := by
  unfold dimension
  refine h.bind h.peek_rel fun start => ?_
  refine h.bind he fun low => ?_
  refine h.bind (h.expect_rel _) fun _ => ?_
  exact h.bind he fun high => h.node_rel _ _

theorem arrayType_rel (he : Q e e') (hy : Q y y') : Q (arrayType e y) (arrayType e' y') := by
  unfold arrayType
  refine h.bind h.advance fun t => ?_
  refine h.bind (h.expect_rel _) fun opener => ?_
  refine h.bind (h.commaList _ (dimension_rel h he)) fun dims => ?_
  refine h.bind (h.expectClosing_rel _ _ _) fun _ => ?_
  refine h.bind (h.expect_rel _) fun _ => ?_
  exact h.bind hy fun element => h.node_rel _ _

theorem lengthOf_rel (he : Q e e') : Q (lengthOf e) (lengthOf e') := by
  unfold lengthOf
  refine h.bind (h.accept_rel _) fun b => h.ite ?_ ?_
  · refine h.bind he fun x => ?_
    exact h.bind (h.expect_rel _) fun _ => h.pure _
  refine h.bind (h.accept_rel _) fun b => h.ite ?_ (h.pure _)
  refine h.bind he fun x => ?_
  exact h.bind (h.expect_rel _) fun _ => h.pure _

theorem stringType_rel (he : Q e e') (name : Keyword) :
    Q (stringType e name) (stringType e' name) := by
  unfold stringType
  refine h.bind h.advance fun t => ?_
  exact h.bind (lengthOf_rel h he) fun length => h.node_rel _ _

theorem namedType_rel (he : Q e e') : Q (namedType e) (namedType e') := by
  unfold namedType
  refine h.bind (h.expectAnyName_rel _) fun t => ?_
  dsimp only
  split
  · exact h.node_rel _ _
  · refine h.bind (h.accept_rel _) fun b => h.ite ?_ (h.node_rel _ _)
    refine h.bind he fun low => ?_
    refine h.bind (h.expect_rel _) fun _ => ?_
    refine h.bind he fun high => ?_
    exact h.bind (h.expect_rel _) fun _ => h.node_rel _ _

theorem typeSpecBody_rel (he : Q e e') (hi : Q i i') (hy : Q y y') :
    Q (typeSpecBody e i y) (typeSpecBody e' i' y') := by
  unfold typeSpecBody
  refine h.bind h.peek_rel fun t => ?_
  split
  · exact arrayType_rel h he hy
  · exact h.bind (structType_rel h hy hi) fun (s, fields) => h.pure _
  · refine h.bind h.advance fun _ => ?_
    exact h.bind hy fun inner => h.node_rel _ _
  · exact stringType_rel h he _
  · exact stringType_rel h he _
  · refine h.bind (h.lexemeAt_rel _) fun next => h.ite ?_ (namedType_rel h he)
    refine h.bind h.advance fun _ => ?_
    refine h.bind h.advance fun _ => ?_
    exact h.bind hy fun inner => h.node_rel _ _
  · exact namedType_rel h he
  · exact h.failInvalid_rel _

theorem enumMember_rel (he : Q e e') : Q (enumMember e) (enumMember e') := by
  unfold enumMember
  refine h.bind (h.expectName_rel _) fun name => ?_
  refine h.bind (h.accept_rel _) fun b => ?_
  exact h.choose (h.map _ he) (h.pure _) fun value => h.node_rel _ _

theorem builtInOf_rel : Q builtInOf builtInOf := by
  unfold builtInOf
  refine h.bind h.peek_rel fun t => ?_
  split
  · exact h.bind h.advance fun _ => h.pure _
  · exact h.pure _

theorem enumType_rel (he : Q e e') : Q (enumType e) (enumType e') := by
  unfold enumType
  refine h.bind h.advance fun opener => ?_
  refine h.bind (h.commaList _ (enumMember_rel h he)) fun members => ?_
  refine h.bind (h.expectClosing_rel _ _ _) fun _ => ?_
  exact h.bind (builtInOf_rel h) fun base => h.node_rel _ _

/-! ### Blocks of variables and of types -/

theorem checkDeclSizes_rel (size : Nat) (ds : List VarDecl) :
    Q (checkDeclSizes size ds) (checkDeclSizes size ds) := by
  induction ds generalizing size with
  | nil => exact h.pure _
  | cons d ds ih => exact h.bind (h.checkSize_rel _ _) fun _ => ih _

theorem blockModifier_rel (m : Bool × Retain) : Q (blockModifier m) (blockModifier m) := by
  unfold blockModifier
  refine h.bind (h.accept_rel _) fun b => h.ite (h.pure _) ?_
  refine h.bind (h.accept_rel _) fun b => h.ite (h.pure _) ?_
  exact h.bind (h.accept_rel _) fun b => h.ite (h.pure _) (h.pure _)

theorem varBlockBody_rel (hy : Q y y') (hi : Q i i') :
    Q (varBlockBody y i) (varBlockBody y' i') := by
  unfold varBlockBody
  refine h.bind h.advance fun t => ?_
  dsimp only
  split
  · exact h.fail_rel _
  · refine h.bind (h.whileTokens_rel (blockModifier_rel h) _) fun (constant, kept) => ?_
    refine h.follow (h.many (before_rel h _) (fun size => ?_) 0) fun decls => ?_
    · refine h.bind (varDecls_rel h hy hi) fun ds => ?_
      exact h.bind (checkDeclSizes_rel h _ _) fun _ => h.pure _
    refine h.bind h.atEnd_rel fun b => h.unless (h.fail_rel _) fun _ => ?_
    refine h.bind h.advance fun _ => ?_
    exact h.bind (h.accept_rel _) fun _ => h.node_rel _ _

theorem seesVarBlock_rel : Q seesVarBlock seesVarBlock := by
  unfold seesVarBlock
  exact h.bind h.lexeme_rel fun l => h.pure _

end Parts

/-! ### Rules that open constructs -/

section Levels

variable (h : Congruence Q)
include h

theorem typeSpec_rel {levels levels' : Nat} (hl : Levels Q levels levels') :
    Q (typeSpec levels) (typeSpec levels') := by
  induction hl with
  | zero => exact h.tooDeep
  | spent deep _ => exact deep _
  | succ hl ih =>
    exact h.nested (typeSpecBody_rel h (expression_rel h hl) (initializer_rel h hl) ih)

theorem varBlock_rel {levels levels' : Nat} (hl : Levels Q levels levels') :
    Q (varBlock levels) (varBlock levels') := by
  cases hl with
  | zero => exact h.tooDeep
  | spent deep _ => exact deep _
  | succ hl => exact h.nested (varBlockBody_rel h (typeSpec_rel h hl) (initializer_rel h hl))

theorem varBlocks_rel (hl : Levels Q levels levels') :
    Q (varBlocks levels) (varBlocks levels') := by
  unfold varBlocks
  refine h.many (seesVarBlock_rel h) (fun size => ?_) 0
  refine h.bind (varBlock_rel h hl) fun block => ?_
  exact h.bind (h.checkSize_rel _ _) fun _ => h.pure _

theorem typeColon_rel : Q typeColon typeColon := by
  unfold typeColon
  refine h.bind (h.accept_rel _) fun b => h.ite (h.pure _) ?_
  refine h.bind h.dialect fun d => h.ite ?_ (h.failExpecting_rel _)
  refine h.bind (blockAttributes_rel h) fun _ => ?_
  exact h.bind (takePragmas_rel h) fun _ => h.pure _

theorem typeDecl_rel (hl : Levels Q levels levels') :
    Q (typeDecl levels) (typeDecl levels') := by
  unfold typeDecl
  refine h.bind (h.expectAnyName_rel _) fun name => ?_
  refine h.bind (typeColon_rel h) fun _ => ?_
  refine h.bind (h.sees_rel _) fun b => ?_
  have base := enumType_rel h (expression_rel h hl)
  refine h.choose base (typeSpec_rel h hl) fun type => ?_
  refine h.bind (h.accept_rel _) fun b => ?_
  refine h.choose (h.map _ (initializer_rel h hl)) (h.pure _) fun initial => ?_
  exact h.bind (h.accept_rel _) fun _ => h.node_rel _ _

theorem typesDecl_rel (hl : Levels Q levels levels') :
    Q (typesDecl levels) (typesDecl levels') := by
  unfold typesDecl
  refine h.bind h.advance fun t => ?_
  refine h.bind (takePragmas_rel h) fun first => ?_
  refine h.follow (h.many (before_rel h _) (fun size => ?_) 0) fun items => ?_
  · refine h.bind (takePragmas_rel h) fun pragmas => ?_
    refine h.bind (typeDecl_rel h hl) fun d => ?_
    exact h.bind (h.checkSize_rel _ _) fun _ => h.pure _
  refine h.bind h.atEnd_rel fun b => h.unless (h.fail_rel _) fun _ => ?_
  refine h.bind h.advance fun _ => ?_
  exact h.bind (h.accept_rel _) fun _ => h.node_rel _ _

/-! ### Parts of program organization units -/

theorem finishPou_rel (close : Keyword) (opener : Token) :
    Q (finishPou close opener) (finishPou close opener) := by
  unfold finishPou
  refine h.bind h.atEnd_rel fun b => h.unless (h.fail_rel _) fun _ => ?_
  refine h.bind (h.expect_rel _) fun _ => ?_
  exact h.bind (h.accept_rel _) fun _ => h.pure _

theorem returnType_rel (hl : Levels Q levels levels') :
    Q (returnType levels) (returnType levels') := by
  unfold returnType
  exact h.bind (h.accept_rel _) fun b => h.ite (h.map _ (typeSpec_rel h hl)) (h.pure _)

theorem variablesOf_rel (fields : List StructField) :
    Q (variablesOf fields) (variablesOf fields) :=
  h.mapM_rel (fun _ => h.node_rel _ _) fields

theorem dataBlockBase_rel (hl : Levels Q levels levels') :
    Q (dataBlockBase levels) (dataBlockBase levels') := by
  unfold dataBlockBase
  refine h.bind h.peek_rel fun start => ?_
  split
  · exact h.bind h.advance fun _ => h.pure _
  · exact h.bind h.advance fun _ => h.pure _
  · refine h.bind (structType_rel h (typeSpec_rel h hl) (initializer_rel h hl))
      fun (s, fields) => ?_
    refine h.bind (h.accept_rel _) fun _ => ?_
    refine h.bind (variablesOf_rel h fields) fun decls => ?_
    exact h.bind (h.node_rel _ _) fun block => h.pure _
  · exact h.pure _

theorem methodModifier_rel (m : MethodModifiers) : Q (methodModifier m) (methodModifier m) := by
  unfold methodModifier
  exact h.bind h.lexeme_rel fun l => h.perhaps h.advance (h.pure _)

theorem classModifier_rel (m : Bool × Bool) : Q (classModifier m) (classModifier m) := by
  unfold classModifier
  refine h.bind (h.accept_rel _) fun b => h.ite (h.pure _) ?_
  refine h.bind (h.accept_rel _) fun b => h.ite (h.pure _) ?_
  refine h.bind (h.accept_rel _) fun b => h.ite (h.pure _) ?_
  exact h.bind (h.accept_rel _) fun b => h.ite (h.pure _) (h.pure _)

theorem interfaceNames_rel : Q interfaceNames interfaceNames :=
  h.commaList _ (h.map _ (h.expectAnyName_rel _))

theorem classHeader_rel (noun : String) : Q (classHeader noun) (classHeader noun) := by
  unfold classHeader
  refine h.bind (h.whileTokens_rel (classModifier_rel h) _) fun (final, abstract) => ?_
  refine h.bind (h.expectAnyName_rel _) fun name => ?_
  refine h.bind (h.accept_rel _) fun b => ?_
  refine h.choose (h.map _ (h.expectAnyName_rel _)) (h.pure _) fun base => ?_
  refine h.bind (h.accept_rel _) fun b => ?_
  exact h.choose (interfaceNames_rel h) (h.pure _) fun implements => h.pure _

theorem dottedName_rel : Q dottedName dottedName := by
  unfold dottedName
  refine h.bind (h.expectName_rel _) fun first => h.whileTokens_rel (fun path => ?_) _
  refine h.bind (h.accept_rel _) fun b => h.ite ?_ (h.pure _)
  exact h.bind (h.expectName_rel _) fun t => h.pure _

end Levels

end Congruence

/-! ### Lists of declarations -/

theorem RecoveryCongruence.declarationsUntil_rel (h : RecoveryCongruence Q N) (close : Option Keyword)
    {d d' : Rule (Option Decl)} (hd : Q d d') :
    Q (declarationsUntil close d) (declarationsUntil close d') := by
  unfold declarationsUntil
  refine h.many ?_ (fun size => ?_) 0
  · exact h.bind h.lexeme_rel fun l => h.pure _
  · refine h.bind (h.recovering _ _ hd) fun x => ?_
    split
    · exact h.bind (h.checkSize_rel _ _) fun _ => h.pure _
    · exact h.pure _

/-! ### Units -/

/-- The relation carries over to units from the rule for what follows on them, although a body and
the word that closes it may run differently. -/
structure UnitCongruence (Q : ⦃α : Type⦄ → Rule α → Rule α → Prop) : Prop
    extends RecoveryCongruence Q where
  closed {α : Type} {f f' : List Stmt → Rule α} {levels levels' : Nat}
    (hl : Levels Q levels levels') (blocks : List VarBlock) (close : Keyword) (opener : Token) :
    (∀ ss, Q (f ss) (f' ss)) →
      Q (pouBody levels blocks close >>= fun ss => finishPou close opener >>= fun _ => f ss)
        (pouBody levels' blocks close >>= fun ss => finishPou close opener >>= fun _ => f' ss)

namespace UnitCongruence

open Congruence

variable (h : UnitCongruence Q)
include h

theorem programDecl_rel (hl : Levels Q levels levels') :
    Q (programDecl levels) (programDecl levels') := by
  unfold programDecl
  refine h.bind h.advance fun t => ?_
  refine h.bind (h.expectAnyName_rel _) fun name => ?_
  refine h.bind (headerExtras_rel h.toCongruence) fun (attributes, pragmas) => ?_
  refine h.bind (varBlocks_rel h.toCongruence hl) fun blocks => ?_
  exact h.closed hl blocks _ t fun ss => h.node_rel _ _

theorem functionDecl_rel (hl : Levels Q levels levels') :
    Q (functionDecl levels) (functionDecl levels') := by
  unfold functionDecl
  refine h.bind h.advance fun t => ?_
  refine h.bind (h.expectAnyName_rel _) fun name => ?_
  refine h.bind (returnType_rel h.toCongruence hl) fun type => ?_
  refine h.bind (headerExtras_rel h.toCongruence) fun (attributes, pragmas) => ?_
  refine h.bind (varBlocks_rel h.toCongruence hl) fun blocks => ?_
  exact h.closed hl blocks _ t fun ss => h.node_rel _ _

theorem organizationBlockDecl_rel (hl : Levels Q levels levels') :
    Q (organizationBlockDecl levels) (organizationBlockDecl levels') := by
  unfold organizationBlockDecl
  refine h.bind h.advance fun t => ?_
  refine h.bind (h.expectAnyName_rel _) fun name => ?_
  refine h.bind (headerExtras_rel h.toCongruence) fun (attributes, pragmas) => ?_
  refine h.bind (varBlocks_rel h.toCongruence hl) fun blocks => ?_
  exact h.closed hl blocks _ t fun ss => h.node_rel _ _

theorem dataBlockDecl_rel (hl : Levels Q levels levels') :
    Q (dataBlockDecl levels) (dataBlockDecl levels') := by
  unfold dataBlockDecl
  refine h.bind h.advance fun t => ?_
  refine h.bind (h.expectAnyName_rel _) fun name => ?_
  refine h.bind (headerExtras_rel h.toCongruence) fun (attributes, pragmas) => ?_
  refine h.bind (dataBlockBase_rel h.toCongruence hl) fun (instanceOf, own) => ?_
  refine h.bind (varBlocks_rel h.toCongruence hl) fun blocks => ?_
  exact h.closed hl _ _ t fun ss => h.node_rel _ _

theorem methodBody_rel (hl : Levels Q levels levels') :
    Q (methodBody levels) (methodBody levels') := by
  unfold methodBody
  refine h.bind h.advance fun t => ?_
  refine h.bind (h.whileTokens_rel (methodModifier_rel h.toCongruence) _) fun m => ?_
  refine h.bind (h.expectAnyName_rel _) fun name => ?_
  refine h.bind (returnType_rel h.toCongruence hl) fun type => ?_
  refine h.bind (varBlocks_rel h.toCongruence hl) fun blocks => ?_
  exact h.closed hl blocks _ t fun ss => h.node_rel _ _

theorem method_rel {levels levels' : Nat} (hl : Levels Q levels levels') :
    Q (method levels) (method levels') := by
  cases hl with
  | zero => exact h.tooDeep
  | spent deep _ => exact deep _
  | succ hl => exact h.nested (methodBody_rel h hl)

theorem members_rel (hl : Levels Q levels levels') (m : Members) :
    Q (members levels m) (members levels' m) := by
  unfold members
  refine h.repeating (fun m => ?_) (fun m isMethod => h.ite (h.declaring _ ?_) ?_) m
  · refine h.bind (h.sees_rel _) fun b => h.ite (h.pure _) ?_
    exact h.bind (seesVarBlock_rel h.toCongruence) fun b => h.ite (h.pure _) (h.pure _)
  · refine h.bind (method_rel h hl) fun x => ?_
    exact h.bind (h.checkSize_rel _ _) fun _ => h.pure _
  · refine h.bind (varBlock_rel h.toCongruence hl) fun block => ?_
    exact h.bind (h.checkSize_rel _ _) fun _ => h.pure _

theorem functionBlockWith_rel {b b' : Rule (List Stmt)} (hb : Q b b')
    (hl : Levels Q levels levels') :
    Q (functionBlockWith b levels) (functionBlockWith b' levels') := by
  unfold functionBlockWith
  refine h.bind h.advance fun t => ?_
  refine h.bind (classHeader_rel h.toCongruence _) fun (name, heritage) => ?_
  refine h.bind (headerExtras_rel h.toCongruence) fun (attributes, pragmas) => ?_
  refine h.bind (members_rel h hl {}) fun first => ?_
  refine h.bind (h.declaring _ ?_) fun (stmts, all) => ?_
  · refine h.bind (h.accept_rel _) fun _ => ?_
    refine h.bind hb fun stmts => ?_
    exact h.bind (members_rel h hl first) fun all => h.pure _
  exact h.bind (finishPou_rel h.toCongruence _ _) fun _ => h.node_rel _ _

theorem classDecl_rel (hl : Levels Q levels levels') :
    Q (classDecl levels) (classDecl levels') := by
  unfold classDecl
  refine h.bind h.advance fun t => ?_
  refine h.bind (classHeader_rel h.toCongruence _) fun (name, heritage) => ?_
  refine h.bind (members_rel h hl {}) fun m => ?_
  exact h.bind (finishPou_rel h.toCongruence _ _) fun _ => h.node_rel _ _

theorem interfaceDecl_rel (hl : Levels Q levels levels') :
    Q (interfaceDecl levels) (interfaceDecl levels') := by
  unfold interfaceDecl
  refine h.bind h.advance fun t => ?_
  refine h.bind (h.expectAnyName_rel _) fun name => ?_
  refine h.bind (h.accept_rel _) fun b => ?_
  refine h.choose (interfaceNames_rel h.toCongruence) (h.pure _) fun parents => ?_
  refine h.follow (h.many (h.sees_rel _) (fun size => ?_) 0) fun methods => ?_
  · refine h.bind (method_rel h hl) fun m => ?_
    exact h.bind (h.checkSize_rel _ _) fun _ => h.pure _
  exact h.bind (finishPou_rel h.toCongruence _ _) fun _ => h.node_rel _ _

/-! ### Declarations -/

theorem spaceDecl_rel {d d' : Rule (Option Decl)} (hd : Q d d') :
    Q (spaceDecl d) (spaceDecl d') := by
  unfold spaceDecl
  refine h.bind h.advance fun t => ?_
  refine h.bind (h.accept_rel _) fun internal => ?_
  refine h.bind (dottedName_rel h.toCongruence) fun name => ?_
  refine h.follow (h.many (h.accept_rel _) (fun size => ?_) 0) fun usings => ?_
  · refine h.bind (dottedName_rel h.toCongruence) fun path => ?_
    refine h.bind h.expectSemicolon_rel fun _ => ?_
    exact h.bind (h.checkSize_rel _ _) fun _ => h.pure _
  refine h.bind (h.declarationsUntil_rel _ hd) fun decls => ?_
  exact h.bind (finishPou_rel h.toCongruence _ _) fun _ => h.node_rel _ _

theorem declarationBody_rel {b b' : Rule Pou} {d d' : Rule (Option Decl)} (hb : Q b b')
    (hd : Q d d') (hl : Levels Q levels levels') :
    Q (declarationBody b d levels) (declarationBody b' d' levels') := by
  unfold declarationBody pouDecl
  refine h.bind h.peek_rel fun t => ?_
  split
  · exact h.map _ (programDecl_rel h hl)
  · exact h.map _ (functionDecl_rel h hl)
  · exact h.map _ hb
  · exact h.map _ (classDecl_rel h hl)
  · exact h.map _ (interfaceDecl_rel h hl)
  · exact h.map _ (h.map _ (method_rel h hl))
  · exact h.map _ (dataBlockDecl_rel h hl)
  · exact h.map _ (organizationBlockDecl_rel h hl)
  · exact h.map _ (typesDecl_rel h.toCongruence hl)
  · exact h.bind (varBlock_rel h.toCongruence hl) fun block => h.map _ (h.node_rel _ _)
  · exact h.map _ (spaceDecl_rel h hd)
  · exact h.bind h.advance fun _ => h.pure _
  · exact h.failExpecting_rel _

theorem declarationWith_rel {b b' : Nat → Rule Pou}
    (hb : ∀ {levels levels' : Nat}, Levels Q levels levels' → Q (b levels) (b' levels'))
    {levels levels' : Nat} (hl : Levels Q levels levels') :
    Q (declarationWith b levels) (declarationWith b' levels') := by
  induction hl with
  | zero => exact h.tooDeep
  | spent deep _ => exact deep _
  | succ hl ih => exact h.nested (declarationBody_rel h (hb hl) ih hl)

theorem unitWith_rel {d d' : Rule (Option Decl)} (hd : Q d d') : Q (unitWith d) (unitWith d') := by
  unfold unitWith
  refine h.bind (h.declarationsUntil_rel _ hd) fun decls => ?_
  refine h.bind h.sourceText fun text => ?_
  exact h.bind (h.recordNode _) fun _ => h.pure _

end UnitCongruence

namespace GrammarCongruence

variable (h : GrammarCongruence Q)
include h

theorem pouBody_rel (hl : Levels Q levels levels') (blocks : List VarBlock) (close : Keyword) :
    Q (pouBody levels blocks close) (pouBody levels' blocks close) := by
  unfold pouBody
  exact h.declaring _ (h.bind (h.accept_rel _) fun _ => h.body_rel hl _)

/-- A relation that holds for bodies and for closing words holds for the two together. -/
theorem units : UnitCongruence Q :=
  { h.toRecoveryCongruence with
    closed := fun hl blocks close opener hf =>
      h.bind (pouBody_rel h hl blocks close) fun ss =>
        h.bind (h.finishPou_rel close opener) fun _ => hf ss }

theorem functionBlockDecl_rel (hl : Levels Q levels levels') :
    Q (functionBlockDecl levels) (functionBlockDecl levels') :=
  (units h).functionBlockWith_rel (h.body_rel hl _) hl

theorem declaration_rel (hl : Levels Q levels levels') :
    Q (declarationWith functionBlockDecl levels) (declarationWith functionBlockDecl levels') :=
  (units h).declarationWith_rel (functionBlockDecl_rel h) hl

theorem compilationUnit_rel (hl : Levels Q levels levels') :
    Q (compilationUnit levels) (compilationUnit levels') :=
  (units h).unitWith_rel (declaration_rel h hl)

end GrammarCongruence

end Plc.Grammar

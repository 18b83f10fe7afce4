/-
The spans of a unit enclose one another.

In a unit that a text is read as, every node covers the nodes directly below it, but for one kind:
an annotation that is written before the first name of a variable belongs to the variable, whose
span begins with the name.

* `varBlock_spans`, `declarationWith_spreads` — what the rules for declarations build;
* `Reading.unit_encloses` — units, and units around errors;
* `Reading.unit_not_contains` — an annotation outside its variable.
-/
import Plc.Proofs.Nesting.TypeSpec

namespace Plc

namespace Grammar

variable {α β : Type} {x : Setting} {b : Cursor} {m w : Bool} {ns : List Node}

/-! ### Blocks of variables and of types -/

theorem varBlockBody_spans {y : Rule TypeSpec} {i : Rule Expr} (hy : Spreads y fun t => [.typeSpec t])
    (hi : Spreads i fun v => [.expr v]) : Spans (varBlockBody y i) fun v => [.varBlock v] := by
  intro x b hb some
  refine AtCursor.advance_spread hb some ?_
  dsimp only
  split
  · exact .fail _
  · next kind _ =>
    refine Triple.bind (Spread.quiet (.whileTokens moves.blockModifier_rel _))
      fun (constant, kept) => Triple.bind Triple.passes fun n => ?_
    refine Triple.bind (Spread.many Node.varDecl (before_foresees _) (fun size x b hb _ => ?_) n 0)
      fun decls => Spread.unlessEnd (Triple.bind Spread.advance fun _ => ?_)
    · refine Triple.bind (varDecls_spreads hy hi x b hb) fun ds => ?_
      exact Triple.bind (Spread.quiet (moves.checkDeclSizes_rel _ _)) fun _ => .pure fun s c sp => sp
    refine Triple.bind (Spread.quiet (moves.accept_rel _)) fun _ => ?_
    exact Spread.node (fun s => .varBlock ⟨s, kind, constant, kept, decls⟩)
      fun s => ⟨rfl, rfl, List.Subset.refl _⟩

theorem varBlock_spans (levels : Nat) : Spans (varBlock levels) fun v => [.varBlock v] := by
  cases levels with
  | zero => exact .tooDeep
  | succ levels =>
    exact .nested (varBlockBody_spans (typeSpec_spreads levels) (initializer_spreads levels))

theorem seesVarBlock_foresees : Spread.Foresees seesVarBlock := by
  intro P
  refine Triple.bind Triple.lexeme fun l => .pure fun s c h => ⟨h.1, fun yes => ?_⟩
  refine (congrArg Lexeme.isFinish h.2).trans ?_
  cases l <;> first | rfl | cases yes

theorem varBlocks_spread (levels : Nat) : Triple (Spread x b m w ns) (varBlocks levels)
    fun vs => Spread x b m w (ns ++ vs.map .varBlock) := by
  refine Triple.bind Triple.passes fun n => ?_
  refine Spread.many Node.varBlock seesVarBlock_foresees (fun size x b hb some => ?_) n 0
  refine Triple.bind (varBlock_spans levels x b hb some) fun block => ?_
  exact Triple.bind (Triple.checkSize _ _) fun _ => .pure fun s c sp => sp.forget

theorem typeDecl_spreads (levels : Nat) : Spreads (typeDecl levels) fun d => [.typeDecl d] := by
  intro x b hb
  refine AtCursor.name_spread (expectAnyName_readsOne _) hb ?_
  refine Triple.bind (Spread.quiet moves.typeColon_rel) fun _ => ?_
  have close (type : TypeSpec) : Triple (Spread x b true false [.typeSpec type]) (do
      let initial ← if ← accept Mark.assign then some <$> initializer levels else pure none
      let _ ← accept Mark.semicolon
      node (x.next b).span fun s => ⟨s, (x.next b).nameText, type, initial⟩)
      fun d => Spread x b false false [.typeDecl d] := by
    refine Triple.bind (Spread.quiet (moves.accept_rel _)) fun yes => ?_
    refine Spread.optional (initializer_spreads levels) fun initial => ?_
    refine Triple.bind (Spread.quiet (moves.accept_rel _)) fun _ => ?_
    exact (Spread.node (fun s => .typeDecl ⟨s, (x.next b).nameText, type, initial⟩)
      fun s => ⟨rfl, rfl, List.Subset.refl _⟩).post fun d s c sp => sp.forget
  refine Triple.bind (Spread.sees _) fun paren => .ite (fun seen => ?_) fun _ => ?_
  · have enum := enumType_spans (expression_lays levels) (moves_expression levels)
    exact Triple.bind ((Spread.span enum).imp fun s c h => ⟨h.1, h.2 seen⟩) close
  · exact Triple.bind ((Spread.spread (typeSpec_spreads levels)).imp fun s c h => h.1) close

/-- The nodes of some named types and of the annotations before each. -/
def typeNodes (items : List (List Pragma × TypeDecl)) : List Node :=
  (items.map (·.2)).map .typeDecl ++ (items.flatMap (·.1)).map .pragma

theorem typesDecl_spans (levels : Nat) : Spans (typesDecl levels) fun d => [.decl d] := by
  intro x b hb some
  refine AtCursor.advance_spread hb some (Triple.bind Spread.takePragmas fun first => ?_)
  refine Triple.bind Triple.passes fun n => ?_
  -- What is made so far: the pragmas before the first name, and one type after the other with its
  -- own.
  let known (items : List (List Pragma × TypeDecl)) : Assertion :=
    Spread x b true true (first.map Node.pragma ++ typeNodes items)
  have more (items : List (List Pragma × TypeDecl)) : Triple (known items) (before .END_TYPE)
      fun yes => cond yes (known items) (known items) :=
    (Spread.quiet (moves.before_rel _)).post fun yes s c sp => by cases yes <;> exact sp
  have item (items : List (List Pragma × TypeDecl)) (size : Nat) : Triple (known items) (do
      let pragmas ← takePragmas
      let d ← typeDecl levels
      checkSize (size + 1) d.span
      return [(pragmas, d)]) fun new => known (items ++ new) := by
    refine Triple.bind Spread.takePragmas fun pragmas => ?_
    refine Triple.bind (Spread.spread (typeDecl_spreads levels)) fun d => ?_
    refine Triple.bind (Triple.checkSize _ _) fun _ => .pure fun s c sp => sp.sub ?_
    grind [typeNodes]
  have loop := (Triple.many more item n 0 []).imp fun s c
    (sp : Spread x b true true ([] ++ first.map Node.pragma) s c) => sp.sub (by grind [typeNodes])
  refine Triple.bind loop fun items => Spread.unlessEnd (Triple.bind Spread.advance fun _ => ?_)
  refine Triple.bind (Spread.quiet (moves.accept_rel _)) fun _ => ?_
  refine Spread.node (fun s => .decl (.types s (items.map (·.2)) (first ++ items.flatMap (·.1))))
    fun s => ⟨rfl, rfl, ?_⟩
  grind [typeNodes, Node.children, Node.ofDecl]

/-! ### Program organization units -/

theorem pouBody_spreads (levels : Nat) (blocks : List VarBlock) (close : Keyword) :
    Spreads (pouBody levels blocks close) (List.map .stmt) := by
  refine .of_lays (Lays.declaring _ fun x b hb => AtCursor.rows hb ?_)
    (moves.pouBody_rel (.refl levels) _ _)
  exact Triple.bind (Rows.accept _) fun _ => Rows.lay (body_lays levels _)

/-- The word that closes a unit comes after everything in it. -/
theorem finishPou_spread (close : Keyword) (opener : Token) :
    Triple (Spread x b m w ns) (finishPou close opener) fun _ => Spread x b true false ns := by
  refine Spread.unlessEnd ?_
  refine Triple.bind ((Spread.expect _).imp fun s c h => h.1) fun _ => ?_
  exact Triple.bind (Spread.quiet (moves.accept_rel _)) fun _ => .pure fun s c sp => sp

theorem returnType_spread (levels : Nat) : Triple (Spread x b m w ns) (returnType levels)
    fun o => Spread x b m w (ns ++ o.toList.map .typeSpec) := by
  refine Triple.bind (Spread.quiet (moves.accept_rel _)) fun yes => .ite (fun _ => ?_) fun _ => ?_
  · exact (Spread.spread (typeSpec_spreads levels)).map fun t s c sp => sp
  · exact .pure fun s c sp => by rwa [Option.toList_none, List.map_nil, List.append_nil]

/-- Variables, a body and the word that closes the unit. -/
theorem code_spread {levels : Nat} {close : Keyword} {opener : Token}
    {f : List VarBlock → List Stmt → Rule β} {Q : β → Assertion}
    (h : ∀ blocks stmts, Triple
      (Spread x b true false (ns ++ blocks.map .varBlock ++ stmts.map .stmt)) (f blocks stmts) Q) :
    Triple (Spread x b m w ns) (do
      let blocks ← varBlocks levels
      let stmts ← pouBody levels blocks close
      finishPou close opener
      f blocks stmts) Q := by
  refine Triple.bind (varBlocks_spread levels) fun blocks => ?_
  refine Triple.bind (Spread.spread (pouBody_spreads levels blocks _)) fun stmts => ?_
  exact Triple.bind (finishPou_spread _ _) fun _ => h blocks stmts

theorem programDecl_spans (levels : Nat) : Spans (programDecl levels) fun p => [.decl (.pou p)] := by
  intro x b hb some
  refine AtCursor.advance_spread hb some ?_
  refine Triple.bind (Spread.quiet (moves.expectAnyName_rel _)) fun name => ?_
  refine Triple.bind Spread.headerExtras fun (attributes, pragmas) => ?_
  refine code_spread fun blocks stmts => ?_
  refine Spread.node (fun s => .decl (.pou (.program
    ⟨s, name.nameText, blocks, stmts, attributes, pragmas⟩))) fun s => ⟨rfl, rfl, ?_⟩
  grind [Node.children, Node.ofDecl, Node.ofPou, Node.ofCode]

theorem functionDecl_spans (levels : Nat) :
    Spans (functionDecl levels) fun p => [.decl (.pou p)] := by
  intro x b hb some
  refine AtCursor.advance_spread hb some ?_
  refine Triple.bind (Spread.quiet (moves.expectAnyName_rel _)) fun name => ?_
  refine Triple.bind (returnType_spread levels) fun type => ?_
  refine Triple.bind Spread.headerExtras fun (attributes, pragmas) => ?_
  refine code_spread fun blocks stmts => ?_
  refine Spread.node (fun s => .decl (.pou (.function
    ⟨s, name.nameText, blocks, stmts, attributes, pragmas⟩ type))) fun s => ⟨rfl, rfl, ?_⟩
  grind [Node.children, Node.ofDecl, Node.ofPou, Node.ofCode]

theorem organizationBlockDecl_spans (levels : Nat) :
    Spans (organizationBlockDecl levels) fun p => [.decl (.pou p)] := by
  intro x b hb some
  refine AtCursor.advance_spread hb some ?_
  refine Triple.bind (Spread.quiet (moves.expectAnyName_rel _)) fun name => ?_
  refine Triple.bind Spread.headerExtras fun (attributes, pragmas) => ?_
  refine code_spread fun blocks stmts => ?_
  refine Spread.node (fun s => .decl (.pou (.organizationBlock
    ⟨s, name.nameText, blocks, stmts, attributes, pragmas⟩))) fun s => ⟨rfl, rfl, ?_⟩
  grind [Node.children, Node.ofDecl, Node.ofPou, Node.ofCode]

/-- A variable of a data block stands where the field does that it is made of. -/
theorem variablesOf_spread {fields : List StructField} (known : fields.map .structField ⊆ ns) :
    Triple (Spread x b m w ns) (variablesOf fields)
      fun ds => Spread x b m w (ns ++ ds.map .varDecl) := by
  unfold variablesOf
  induction fields generalizing ns with
  | nil => exact .pure fun s c sp => by rwa [List.reverse_nil, List.map_nil, List.append_nil]
  | cons f fields ih =>
    rw [List.map_cons, List.cons_subset] at known
    -- A variable has the span and the parts of the field it is made from, so it lies where the
    -- field lies.
    have one : Triple (Spread x b m w ns)
        (node f.span fun s => ⟨s, f.name, f.type, none, f.initial, []⟩)
        fun d => Spread x b m w (ns ++ [Node.varDecl d]) := by
      refine Spread.rewrap (k := .structField f)
        (fun s => .varDecl ⟨s, f.name, f.type, none, f.initial, []⟩) known.1
        fun s => ⟨rfl, rfl, ?_, ?_⟩
      · cases f
        simp [Node.children, StructField.type, StructField.initial]
      · simp [Node.children]
    rw [List.mapM_cons]
    refine Triple.bind one fun d => ?_
    refine Triple.bind (ih (List.subset_append_of_subset_left _ known.2)) fun ds => ?_
    refine .pure fun s c sp => ?_
    rwa [List.append_assoc] at sp

theorem dataBlockBase_spreads (levels : Nat) :
    Spreads (dataBlockBase levels) fun base => base.2.map .varBlock := by
  intro x b hb
  refine AtCursor.peek ?_
  have nothing (base : Option String) : Triple (AtCursor x b) (do
      let _ ← advance
      return (base, []) : Rule (Option String × List VarBlock))
      fun base => Spread x b false false (base.2.map .varBlock) :=
    AtCursor.spread hb (Triple.bind (Spread.quiet moves.advance) fun _ => .pure fun s c sp => sp)
  split
  · exact nothing _
  · exact nothing _
  · next h =>
    have struct := structType_spans (typeSpec_spreads levels) (initializer_spreads levels)
    refine Triple.bind (struct x b hb (hb.order.some_of_eq h rfl)) fun (s, fields) => ?_
    refine Triple.bind (Spread.quiet (moves.accept_rel _)) fun _ => ?_
    -- The block is not made from the structure but from its fields, which lie in the structure.
    have made : Triple (Spread x b true false [.typeSpec (.struct s fields)]) (variablesOf fields)
        fun ds => Spread x b true false (fields.map Node.structField ++ ds.map Node.varDecl) := by
      refine (variablesOf_spread (List.Subset.refl _)).imp fun s' c sp => ?_
      exact sp.below List.mem_cons_self (by simp [Node.children, Node.ofTypeSpec])
    refine Triple.bind made fun decls => ?_
    refine Triple.bind (R := fun v => Spread x b true false [.varBlock v]) ?_ fun block => ?_
    · exact Spread.node (fun s => .varBlock { span := s, declarations := decls })
        fun s => ⟨rfl, rfl, List.subset_append_right _ _⟩
    · exact .pure fun s c sp => sp.forget
  · exact AtCursor.spread hb (.pure fun s c sp => sp)

theorem dataBlockDecl_spans (levels : Nat) :
    Spans (dataBlockDecl levels) fun p => [.decl (.pou p)] := by
  intro x b hb some
  refine AtCursor.advance_spread hb some ?_
  refine Triple.bind (Spread.quiet (moves.expectAnyName_rel _)) fun name => ?_
  refine Triple.bind Spread.headerExtras fun (attributes, pragmas) => ?_
  refine Triple.bind (Spread.spread (dataBlockBase_spreads levels)) fun (instanceOf, own) => ?_
  refine Triple.bind (varBlocks_spread levels) fun further => ?_
  refine Triple.bind (Spread.spread (pouBody_spreads levels _ _)) fun stmts => ?_
  refine Triple.bind (finishPou_spread _ _) fun _ => ?_
  refine Spread.node (fun s => .decl (.pou (.dataBlock
    ⟨s, name.nameText, own ++ further, stmts, attributes, pragmas⟩ instanceOf))) fun s => ⟨rfl, rfl, ?_⟩
  grind [Node.children, Node.ofDecl, Node.ofPou, Node.ofCode]

/-- A method as a node. -/
abbrev methodNode (m : Method) : Node := .decl (.pou (.method m))

theorem methodBody_spans (levels : Nat) : Spans (methodBody levels) fun m => [methodNode m] := by
  intro x b hb some
  refine AtCursor.advance_spread hb some ?_
  refine Triple.bind (Spread.quiet (.whileTokens moves.methodModifier_rel _)) fun m => ?_
  refine Triple.bind (Spread.quiet (moves.expectAnyName_rel _)) fun name => ?_
  refine Triple.bind (returnType_spread levels) fun type => ?_
  refine code_spread fun blocks stmts => ?_
  refine Spread.node (fun s => methodNode {
    code := { span := s, name := name.nameText, varBlocks := blocks, body := stmts }
    access := m.access
    final := m.final
    abstract := m.abstract
    override := m.override
    returnType := type }) fun s => ⟨rfl, rfl, ?_⟩
  grind [Node.children, Node.ofDecl, Node.ofPou, Node.ofCode]

theorem method_spans (levels : Nat) : Spans (method levels) fun m => [methodNode m] := by
  cases levels with
  | zero => exact .tooDeep
  | succ levels => exact .nested (methodBody_spans levels)

/-- The variables and methods read so far, as nodes. -/
def Members.tops (m : Members) : List Node :=
  m.blocks.map .varBlock ++ m.methods.map methodNode

theorem members_spread (levels : Nat) {k : Bool} {m : Members} (known : m.tops ⊆ ns) :
    Triple (Spread x b k w ns) (members levels m) fun all => Spread x b k w (ns ++ all.tops) := by
  refine Triple.bind Triple.passes fun n => ?_
  -- What holds once the next member has been seen: there is a token left for it.
  let ahead (m : Members) (_ : Bool) : Assertion := fun s c =>
    Spread x b k w (ns ++ m.tops) s c ∧ c.rest ≠ []
  -- The loop looks at one token and takes a method or a block of variables, until neither is seen.
  have look (m : Members) : Triple (Spread x b k w (ns ++ m.tops)) (do
      if ← sees Keyword.METHOD then return .inr true
      else if ← seesVarBlock then return .inr false
      else return .inl m : Rule (Members ⊕ Bool))
      (Sum.elim (fun m => Spread x b k w (ns ++ m.tops)) (ahead m)) := by
    refine Triple.bind (Spread.sees _) fun yes => .ite (fun seen => ?_) fun _ => ?_
    · exact .pure fun s c h => ⟨h.1, h.2 seen⟩
    refine Triple.bind (seesVarBlock_foresees _) fun yes => .ite (fun seen => ?_) fun _ => ?_
    · exact .pure fun s c h => ⟨h.1.1, h.1.1.more (h.2 seen)⟩
    · exact .pure fun s c h => h.1.1
  have step (m : Members) (isMethod : Bool) : Triple (ahead m isMethod) (if isMethod then
      declaring (namesOf m.blocks) do
        let v ← method levels
        checkSize (m.methods.length + 1) v.code.span
        return .inr { m with methods := m.methods ++ [v] }
      else do
        let block ← varBlock levels
        checkSize (m.blocks.length + 1) block.span
        return .inr { m with blocks := m.blocks ++ [block] } : Rule (Members ⊕ Members))
      (Sum.elim (fun m => Spread x b k w (ns ++ m.tops)) fun m => Spread x b k w (ns ++ m.tops)) := by
    have still : Still (ahead m isMethod) := fun s c c' same h =>
      ⟨Spread.still same h.1, same.rest ▸ h.2⟩
    refine .ite (fun _ => still.declaring _ ?_ ?_) fun _ => ?_
    · refine Triple.bind (Spread.span (method_spans levels)) fun v => ?_
      refine Triple.bind (Triple.checkSize _ _) fun _ => .pure fun s c sp => sp.sub ?_
      -- the new member lies behind those before it, whichever list it goes to
      grind [Members.tops]
    · rintro (all | all) <;> exact Spread.still
    · refine Triple.bind (Spread.span (varBlock_spans levels)) fun block => ?_
      refine Triple.bind (Triple.checkSize _ _) fun _ => .pure fun s c sp => sp.sub ?_
      grind [Members.tops]
  refine (Triple.repeating look step n m).imp fun s c sp => sp.sub ?_
  exact List.append_subset.2 ⟨List.Subset.refl _, known⟩

theorem functionBlockDecl_spans (levels : Nat) :
    Spans (functionBlockDecl levels) fun p => [.decl (.pou p)] := by
  intro x b hb some
  refine AtCursor.advance_spread hb some ?_
  refine Triple.bind (Spread.quiet (moves.classHeader_rel _)) fun (name, heritage) => ?_
  refine Triple.bind Spread.headerExtras fun (attributes, pragmas) => ?_
  refine Triple.bind (members_spread levels (List.nil_subset _)) fun first => ?_
  have inner : Triple (Spread x b true true (pragmas.map Node.pragma ++ first.tops)) (declaring
      (namesOf first.blocks) do
        let _ ← accept Keyword.BEGIN
        let stmts ← body levels [.END_FUNCTION_BLOCK, .METHOD]
        let all ← members levels first
        return (stmts, all))
      fun y => Spread x b true true
        (pragmas.map Node.pragma ++ first.tops ++ y.1.map Node.stmt ++ y.2.tops) := by
    have stmts : Spreads (body levels [.END_FUNCTION_BLOCK, .METHOD]) (List.map .stmt) :=
      .of_lays (body_lays levels _) (moves.body_rel (.refl levels) _)
    refine Spread.still.declaring _ ?_ fun _ => Spread.still
    refine Triple.bind (Spread.quiet (moves.accept_rel _)) fun _ => ?_
    refine Triple.bind (Spread.spread stmts) fun stmts => ?_
    refine Triple.bind (members_spread levels ?_) fun all => .pure fun s c sp => sp
    grind
  refine Triple.bind inner fun (stmts, all) => Triple.bind (finishPou_spread _ _) fun _ => ?_
  refine Spread.node (fun s => .decl (.pou (.functionBlock
    ⟨s, name.nameText, all.blocks, stmts, attributes, pragmas⟩ heritage all.methods)))
    fun s => ⟨rfl, rfl, ?_⟩
  grind [Node.children, Node.ofDecl, Node.ofPou, Node.ofCode, Members.tops]

theorem classDecl_spans (levels : Nat) : Spans (classDecl levels) fun p => [.decl (.pou p)] := by
  intro x b hb some
  refine AtCursor.advance_spread hb some ?_
  refine Triple.bind (Spread.quiet (moves.classHeader_rel _)) fun (name, heritage) => ?_
  refine Triple.bind (members_spread levels (List.nil_subset _)) fun m => ?_
  refine Triple.bind (finishPou_spread _ _) fun _ => ?_
  refine Spread.node (fun s => .decl (.pou (.classDecl
    { span := s, name := name.nameText, varBlocks := m.blocks } heritage m.methods)))
    fun s => ⟨rfl, rfl, ?_⟩
  grind [Node.children, Node.ofDecl, Node.ofPou, Node.ofCode, Members.tops]

theorem sees_foresees (t : Terminal) : Spread.Foresees (sees t) := fun _ =>
  (Triple.sees t).post fun _ _ _ ⟨hc, seen⟩ => ⟨hc, fun yes => Lexeme.goes_of_is (seen.trans yes)⟩

theorem interfaceDecl_spans (levels : Nat) :
    Spans (interfaceDecl levels) fun p => [.decl (.pou p)] := by
  intro x b hb some
  refine AtCursor.advance_spread hb some ?_
  refine Triple.bind (Spread.quiet (moves.expectAnyName_rel _)) fun name => ?_
  have rest (parents : List String) : Triple (Spread x b true false []) (do
      let methods ← many (sees Keyword.METHOD) (fun size => do
        let m ← method levels
        checkSize (size + 1) m.code.span
        return [m]) (← passes) 0
      finishPou .END_INTERFACE (x.next b)
      node (x.next b).span fun s =>
        Pou.interface { span := s, name := name.nameText } parents methods)
      fun p => Spread x b true false [.decl (.pou p)] := by
    refine Triple.bind Triple.passes fun n => ?_
    refine Triple.bind (Spread.many methodNode (sees_foresees _) (fun size x b hb some => ?_) n 0)
      fun methods => Triple.bind (finishPou_spread _ _) fun _ => ?_
    · refine Triple.bind (method_spans levels x b hb some) fun m => ?_
      exact Triple.bind (Triple.checkSize _ _) fun _ => .pure fun s c sp => sp.forget
    · refine Spread.node (fun s => .decl (.pou (.interface
        { span := s, name := name.nameText } parents methods))) fun s => ⟨rfl, rfl, ?_⟩
      grind [Node.children, Node.ofDecl, Node.ofPou, Node.ofCode]
  refine Triple.bind (Spread.quiet (moves.accept_rel _)) fun yes => .ite (fun _ => ?_) fun _ => rest []
  exact Triple.bind (Spread.quiet moves.interfaceNames_rel) rest

/-! ### Declarations -/

variable {declaration : Rule (Option Decl)}

theorem declarationsUntil_spreads (hm : Moves declaration)
    (hd : Spreads declaration fun o => o.toList.map .decl) (close : Option Keyword) :
    Spreads (declarationsUntil close declaration) (List.map .decl) := by
  refine .of_spread fun x b => Triple.bind Triple.passes fun n => ?_
  refine Spread.many Node.decl (fun P => ?_) (fun size x b hb _ => ?_) n 0
  · refine Triple.bind Triple.lexeme fun l => .pure fun s c h => ⟨h.1, fun yes => ?_⟩
    rw [Bool.not_eq_true', Bool.or_eq_false_iff] at yes
    exact (congrArg Lexeme.isFinish h.2).trans yes.1
  · refine Triple.bind (Spread.recovering hm hd x b hb) fun o => ?_
    split
    · exact Triple.bind (Triple.checkSize _ _) fun _ => .pure fun s c sp => sp
    · exact .pure fun s c sp => sp.sub (List.nil_subset _)

theorem spaceDecl_spans (hm : Moves declaration)
    (hd : Spreads declaration fun o => o.toList.map .decl) :
    Spans (spaceDecl declaration) fun d => [.decl d] := by
  intro x b hb some
  refine AtCursor.advance_spread hb some ?_
  refine Triple.bind (Spread.quiet (moves.accept_rel _)) fun internal => ?_
  refine Triple.bind (Spread.quiet moves.dottedName_rel) fun name => Triple.bind Triple.passes fun n => ?_
  refine Triple.bind (Spread.quiet (.many (moves.accept_rel _) (fun size => ?_) n 0)) fun usings => ?_
  · refine Moves.bind moves.dottedName_rel fun path => ?_
    refine Moves.bind moves.expectSemicolon_rel fun _ => ?_
    exact Moves.bind (moves.checkSize_rel _ _) fun _ => moves.pure _
  refine Triple.bind (Spread.spread (declarationsUntil_spreads hm hd _)) fun decls => ?_
  refine Triple.bind (finishPou_spread _ _) fun _ => ?_
  exact Spread.node (fun s => .decl (.space s name internal usings decls))
    fun s => ⟨rfl, rfl, List.Subset.refl _⟩

theorem declarationBody_spreads (hm : Moves declaration)
    (hd : Spreads declaration fun o => o.toList.map .decl) (levels : Nat) :
    Spreads (declarationBody (functionBlockDecl levels) declaration levels)
      fun o => o.toList.map .decl := by
  intro x b hb
  refine AtCursor.peek ?_
  -- Every declaration begins with a word of its own, so there is a token to begin with.
  have present {r : Rule Decl} (h : Spans r fun d => [.decl d]) {l : Lexeme}
      (here : (x.next b).lexeme = l) (goes : l.isFinish = false) :
      Triple (AtCursor x b) (some <$> r) fun o => Spread x b false false (o.toList.map .decl) :=
    (h x b hb (hb.order.some_of_eq here goes)).map fun d s c sp => sp.forget
  have pou {r : Rule Pou} (h : Spans r fun p => [.decl (.pou p)]) {l : Lexeme}
      (here : (x.next b).lexeme = l) (goes : l.isFinish = false) :
      Triple (AtCursor x b) (pouDecl r) fun o => Spread x b false false (o.toList.map .decl) :=
    (h x b hb (hb.order.some_of_eq here goes)).map fun p s c sp => sp.forget
  split
  · next h => exact pou (programDecl_spans levels) h rfl
  · next h => exact pou (functionDecl_spans levels) h rfl
  · next h => exact pou (functionBlockDecl_spans levels) h rfl
  · next h => exact pou (classDecl_spans levels) h rfl
  · next h => exact pou (interfaceDecl_spans levels) h rfl
  · next h =>
    refine pou (fun x b hb some => ?_) h rfl
    exact (method_spans levels x b hb some).map fun m s c sp => sp
  · next h => exact pou (dataBlockDecl_spans levels) h rfl
  · next h => exact pou (organizationBlockDecl_spans levels) h rfl
  · next h => exact present (typesDecl_spans levels) h rfl
  · next h =>
    refine Triple.bind (varBlock_spans levels x b hb (hb.order.some_of_eq h rfl)) fun block => ?_
    have globals : Triple (Spread x b true false [.varBlock block])
        (node (x.next b).span fun s => .globals s block) fun d => Spread x b true false [.decl d] :=
      Spread.node (fun s => .decl (.globals s block)) fun s => ⟨rfl, rfl, List.Subset.refl _⟩
    exact globals.map fun d s c sp => sp.forget
  · next h => exact present (spaceDecl_spans hm hd) h rfl
  · exact AtCursor.spread hb (Triple.bind (Spread.quiet moves.advance) fun _ => .pure fun s c sp => sp)
  · exact .failExpecting _

theorem declarationWith_spreads (levels : Nat) :
    Spreads (declarationWith functionBlockDecl levels) fun o => o.toList.map .decl := by
  induction levels with
  | zero => exact .tooDeep
  | succ levels ih =>
    exact .nested (declarationBody_spreads (moves.declaration_rel (.refl levels)) ih levels)

/-- A unit is as long as the text. -/
theorem compilationUnit_encloses (levels : Nat) (hb : Place x b) :
    Triple (AtCursor x b) (compilationUnit levels)
      fun u _ _ => ∀ n ∈ (Node.unit u).nodes, n.Encloses := by
  have decls := declarationsUntil_spreads (moves.declaration_rel (.refl levels))
    (declarationWith_spreads levels) none
  refine Triple.bind (decls x b hb) fun ds => Triple.bind Triple.sourceText fun text => ?_
  refine Triple.bind (R := fun _ s c => Spread x b false false (ds.map .decl) s c ∧ text = s.source) ?_
    fun _ => .pure fun s c ⟨sp, whole⟩ => ?_
  · have still : Still fun s c => Spread x b false false (ds.map .decl) s c ∧ text = s.source :=
      fun s c c' same h => ⟨Spread.still same h.1, h.2⟩
    exact still.recordNode _
  · obtain rfl := sp.setting
    have inside : c.lastStop ≤ text.length := whole ▸ sp.stands.inside
    have all : (Node.unit ⟨⟨0, text.length, Nat.zero_le _⟩, ds⟩).Lies 0 text.length :=
      .above (Nat.zero_le _) (Nat.le_refl _) fun k hk =>
        .inl ((sp.lies k hk).mono (Nat.zero_le _) inside)
    exact all.encloses

end Grammar

namespace Reading

open Grammar

theorem encloses_of_run {r : Reading} {recovers : Bool} {u : CompilationUnit}
    {errors : List SyntaxError} (h : run (compilationUnit r.limits.maxDepth) r.source r.limits
      r.dialect recovers = .ok (u, errors)) : ∀ n ∈ (Node.unit u).nodes, n.Encloses := by
  obtain ⟨ts, c, within, hrun, -⟩ := run_eq_ok_iff.1 h
  have start : Place ⟨r.source, r.dialect, r.limits, recovers,
      ts.getLastD (Scanner.finish r.source.length)⟩ (.before ts) :=
    ⟨Cursor.before_inOrder within, Cursor.before_waits within⟩
  exact compilationUnit_encloses r.limits.maxDepth start ⟨rfl, rfl⟩ hrun

theorem encloses_of_unit {r : Reading} {u : CompilationUnit} (h : r.unit = .ok u) :
    ∀ n ∈ (Node.unit u).nodes, n.Encloses := by
  obtain ⟨errors, hrun⟩ := strictly_eq_ok_iff.1 h
  exact encloses_of_run hrun

/-- In every dialect and under any limits, each node of the unit that a text is read as covers the
nodes directly below it, except for annotations of a variable that come before it; so does each node
of the unit that is left where errors are recovered from. -/
theorem unit_encloses (r : Reading) :
    (∀ u, r.unit = .ok u → ∀ n ∈ (Node.unit u).nodes, n.Encloses) ∧
    ∀ u errors, r.unitRecovering = .ok (u, errors) → ∀ n ∈ (Node.unit u).nodes, n.Encloses := by
  exact ⟨fun u h => encloses_of_unit h, fun u errors h => encloses_of_run h⟩

/-- An annotation before a variable. -/
def annotated : Reading :=
  ⟨"VAR_GLOBAL \x7b a := 'b' \x7d x : INT; END_VAR".toList, .scl, {}⟩

/-- It stands outside the variable that it belongs to. -/
theorem annotated_unit : ∃ u, annotated.unit = .ok u ∧
    ((Node.unit u).nodes.all fun n => n.children.all fun m => n.span.contains m.span) = false :=
  ok_of_map (by decide +kernel)

/-- An annotation after two variables, and a program with an error. -/
def brokenUnit : Reading :=
  ⟨"VAR_GLOBAL x, y \x7bc\x7d : INT; END_VAR PROGRAM p VAR z : ; END_VAR".toList, .scl, {}⟩

/-- The program is dropped, and the variables before it are kept. -/
theorem unit_encloses_annotated : (∃ u, annotated.unit = .ok u ∧
      ∀ n ∈ (Node.unit u).nodes, n.Encloses) ∧
    ∃ u errors, brokenUnit.unitRecovering = .ok (u, errors) ∧
      ∀ n ∈ (Node.unit u).nodes, n.Encloses := by
  have around : brokenUnit.unitRecovering.toOption.isSome = true := by decide +kernel
  constructor
  · obtain ⟨u, h, -⟩ := annotated_unit
    exact ⟨u, h, (unit_encloses annotated).1 u h⟩
  · obtain ⟨⟨u, errors⟩, h⟩ := ok_of_isSome around
    exact ⟨u, errors, h, (unit_encloses brokenUnit).2 u errors h⟩

/-- Not every node covers the nodes below it. -/
theorem unit_not_contains : ¬∀ (r : Reading) u, r.unit = .ok u →
    ∀ n ∈ (Node.unit u).nodes, ∀ m ∈ n.children, n.span.contains m.span = true := by
  intro all
  obtain ⟨u, h, outside⟩ := annotated_unit
  obtain ⟨n, hn, fails⟩ := List.all_eq_false.1 outside
  exact fails (List.all_eq_true.2 (all annotated u h n hn))

end Reading

end Plc

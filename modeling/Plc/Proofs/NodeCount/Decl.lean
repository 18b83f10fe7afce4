/-
The nodes of types and declarations are counted, each once.

Variables that are declared together share their type, their initial value and their annotations:
these are counted once and then stand below each of the variables.  The fields of a structure
share with them in the same way.  So the nodes below a declaration are compared with the counted
ones as sets.

* `varDecls_builds`, `typeSpec_builds` — variables and types;
* `declarationWith_builds` — one declaration, as far as the rule for function blocks is known.
-/
import Plc.Proofs.NodeCount.Stmt

namespace Plc

/-- The nodes of one field. -/
def StructField.nodes (f : StructField) : List Node := StructField.nodesAll [f]

theorem StructField.flatMap_nodes (fs : List StructField) :
    fs.flatMap StructField.nodes = StructField.nodesAll fs := by
  rw [StructField.nodesAll_eq, List.flatMap_map]
  rfl

theorem StructField.nodes_eq (f : StructField) :
    f.nodes = .structField f :: (f.type.nodes ++ Expr.nodesOpt f.initial) := by
  cases f
  simp [StructField.nodes, StructField.nodesAll, StructField.type, StructField.initial]

theorem Decl.flatMap_nodes (ds : List Decl) : ds.flatMap Decl.nodes = Decl.nodesAll ds := by
  rw [Decl.nodesAll_eq, List.flatMap_map]
  rfl

namespace Grammar

/-- The nodes of the rule's result are counted, each at least once. -/
abbrev Covers {α : Type} (r : Rule α) (made : α → List Node) : Prop :=
  Builds (· ⊆ ·) [] r made

variable {e i : Rule Expr} {y : Rule TypeSpec} {known : List Node}

/-! ### Annotations -/

theorem takePragmas_builds :
    Builds (· ⊆ ·) known takePragmas fun ps => known ++ ps.map Node.pragma := by
  have record (ps : List Pragma) (known : List Node) :
      Builds (· ⊆ ·) known (recordPragmas ps) fun _ => known ++ ps.map Node.pragma := by
    induction ps generalizing known with
    | nil => exact .same (List.append_nil _)
    | cons p ps ih =>
      refine (Builds.recordNode asSets p.span known (.pragma p)).bind fun _ => ?_
      exact (ih _).imp asSets fun _ => by simp
  refine Builds.bind (.of_countsUp countsUp.takeWaiting) fun ts => ?_
  exact (record _ known).bind fun _ => .same rfl

theorem headerExtras_builds :
    Covers headerExtras fun extras => extras.2.map Node.pragma := by
  refine takePragmas_builds.bind fun before => ?_
  refine Builds.bind (.of_countsUp countsUp.blockAttributes_rel) fun attributes => ?_
  exact takePragmas_builds.bind fun after => .same (by simp)

/-! ### Variables -/

/-- What the variables share is counted before them. -/
theorem declareEach_builds {type : TypeSpec} {initial : Option Expr} {pragmas : List Pragma}
    (shared : type.nodes ++ Expr.nodesOpt initial ++ pragmas.map .pragma ⊆ known)
    (address : Option String) (names : List Token) :
    Builds (· ⊆ ·) known (declareEach type address initial pragmas names)
      fun ds => known ++ ds.flatMap VarDecl.nodes := by
  induction names generalizing known with
  | nil => exact .same (List.append_nil _)
  | cons name names ih =>
    have first : Builds (· ⊆ ·) known
        (node name.span fun s => ⟨s, name.nameText, type, address, initial, pragmas⟩)
        fun d => known ++ VarDecl.nodes d := by
      refine .node asSets
        (fun s => .varDecl ⟨s, name.nameText, type, address, initial, pragmas⟩) fun s => ?_
      grind [VarDecl.nodes]
    refine first.bind fun d => ?_
    refine (ih (List.subset_append_of_subset_left _ shared)).bind fun ds => .same ?_
    rw [List.flatMap_cons, List.append_assoc]

theorem varDecls_builds (hy : Covers y TypeSpec.nodes) (hi : Covers i Expr.nodes) :
    Covers (varDecls y i) (List.flatMap VarDecl.nodes) := by
  refine takePragmas_builds.bind fun before => ?_
  refine Builds.bind (.of_countsUp (.commaList (countsUp.expectAnyName_rel _))) fun names => ?_
  refine takePragmas_builds.bind fun after => ?_
  refine Builds.bind (.of_countsUp countsUp.placeOf_rel) fun address => ?_
  refine (Builds.expect _).bind fun _ => (hy.frame asSets _).bind fun type => ?_
  refine (Builds.accept _).bind fun b => ?_
  refine .optional Expr.nodesOpt asSets hi rfl (fun _ => rfl) fun initial => ?_
  refine Builds.expectSemicolon.bind fun _ => ?_
  refine (declareEach_builds ?_ address names).imp asSets fun ds => ?_
  · grind
  · exact List.subset_append_right ..

/-! ### Types -/

theorem fieldsOf_builds {ds : List VarDecl} (shared : ds.flatMap VarDecl.nodes ⊆ known)
    (size : Nat) :
    Builds (· ⊆ ·) known (fieldsOf size ds) fun fs => known ++ fs.flatMap StructField.nodes := by
  induction ds generalizing known size with
  | nil => exact .same (List.append_nil _)
  | cons d ds ih =>
    rw [List.flatMap_cons, List.append_subset] at shared
    have first : Builds (· ⊆ ·) known (node d.span fun s => .mk s d.name d.type d.initial)
        fun f => known ++ StructField.nodes f := by
      refine .node asSets (fun s => .structField (.mk s d.name d.type d.initial)) fun s => ?_
      have below := shared.1
      grind [StructField.nodes_eq, VarDecl.nodes, StructField.type, StructField.initial]
    refine first.bind fun f => (Builds.checkSize _ _).bind fun _ => ?_
    refine (ih (List.subset_append_of_subset_left _ shared.2) _).bind fun fs => .same ?_
    rw [List.flatMap_cons, List.append_assoc]

theorem structType_builds (hy : Covers y TypeSpec.nodes) (hi : Covers i Expr.nodes) :
    Covers (structType y i) fun x => (TypeSpec.struct x.1 x.2).nodes := by
  refine Builds.advance.bind fun t => Builds.passes.bind fun n => ?_
  refine (Builds.many StructField.nodes asSets (countsUp.before_rel _) (fun size => ?_) n 0).bind
    fun fields => ?_
  · refine (varDecls_builds hy hi).bind fun ds => ?_
    refine (fieldsOf_builds (List.Subset.refl _) size).imp asSets fun fs => ?_
    exact List.subset_append_right ..
  refine Builds.atEnd.bind fun b => .ite (.fail_bind _) (Builds.advance.bind fun _ => ?_)
  refine .node asSets (fun s => .typeSpec (.struct s fields)) fun s => ?_
  simp [TypeSpec.nodes, StructField.flatMap_nodes]

theorem dimension_builds (he : Covers e Expr.nodes) : Covers (dimension e) Dimension.nodes := by
  refine Builds.peek.bind fun start => Builds.bind he fun low => (Builds.expect _).bind fun _ => ?_
  refine (he.frame asSets _).bind fun high => ?_
  exact .node asSets (fun s => .dimension ⟨s, low, high⟩) fun s => by simp [Dimension.nodes]

theorem arrayType_builds (he : Covers e Expr.nodes) (hy : Covers y TypeSpec.nodes) :
    Covers (arrayType e y) TypeSpec.nodes := by
  refine Builds.advance.bind fun t => (Builds.expect _).bind fun opener => ?_
  refine (Builds.commaList asSets (dimension_builds he)).bind fun dims => ?_
  refine (Builds.expectClosing _ _ _).bind fun _ => (Builds.expect _).bind fun _ => ?_
  refine (hy.frame asSets _).bind fun element => ?_
  exact .node asSets (fun s => .typeSpec (.array s dims element)) fun s => by
    simp [TypeSpec.nodes]

theorem lengthOf_builds (he : Covers e Expr.nodes) : Covers (lengthOf e) Expr.nodesOpt := by
  have closed (t : Terminal) : Covers (do
      let x ← e
      let _ ← expect t
      return some x) Expr.nodesOpt :=
    Builds.bind he fun x => (Builds.expect _).bind fun _ => .same rfl
  refine (Builds.accept _).bind fun b => .ite (closed _) ?_
  exact (Builds.accept _).bind fun b => .ite (closed _) (.same rfl)

theorem stringType_builds (he : Covers e Expr.nodes) (name : Keyword) :
    Covers (stringType e name) TypeSpec.nodes := by
  refine Builds.advance.bind fun t => (lengthOf_builds he).bind fun length => ?_
  exact .node asSets (fun s => .typeSpec (.elementary s name.spelling length)) fun s => by
    simp [TypeSpec.nodes]

theorem namedType_builds (he : Covers e Expr.nodes) : Covers (namedType e) TypeSpec.nodes := by
  refine (Builds.expectAnyName _).bind fun t => ?_
  dsimp only
  split
  · exact .node asSets (fun s => .typeSpec (.named s t.nameText)) fun s => by
      simp [TypeSpec.nodes]
  · next base _ =>
    refine (Builds.accept _).bind fun b => .ite ?_ ?_
    · refine Builds.bind he fun low => (Builds.expect _).bind fun _ => ?_
      refine (he.frame asSets _).bind fun high => (Builds.expect _).bind fun _ => ?_
      exact .node asSets (fun s => .typeSpec (.subrange s base low high)) fun s => by
        simp [TypeSpec.nodes]
    · exact .node asSets (fun s => .typeSpec (.elementary s base none)) fun s => by
        simp [TypeSpec.nodes, Expr.nodesOpt]

theorem typeSpecBody_builds (he : Covers e Expr.nodes) (hi : Covers i Expr.nodes)
    (hy : Covers y TypeSpec.nodes) : Covers (typeSpecBody e i y) TypeSpec.nodes := by
  refine Builds.peek.bind fun t => ?_
  have referent : Covers (do
      let inner ← y
      node t.span fun s => .ref s inner) TypeSpec.nodes :=
    Builds.bind hy fun inner =>
      .node asSets (fun s => .typeSpec (.ref s inner)) fun s => by simp [TypeSpec.nodes]
  split
  · exact arrayType_builds he hy
  · exact (structType_builds hy hi).bind fun _ => .same rfl
  · exact Builds.advance.bind fun _ => referent
  · exact stringType_builds he _
  · exact stringType_builds he _
  · refine (Builds.lexemeAt _).bind fun next => .ite ?_ (namedType_builds he)
    exact Builds.advance.bind fun _ => Builds.advance.bind fun _ => referent
  · exact namedType_builds he
  · exact .failInvalid _

theorem typeSpec_builds (levels : Nat) : Covers (typeSpec levels) TypeSpec.nodes := by
  induction levels with
  | zero => exact .tooDeep
  | succ levels ih =>
    exact .nested (typeSpecBody_builds (expression_builds levels).toSets
      (initializer_builds levels).toSets ih)

theorem enumMember_builds (he : Covers e Expr.nodes) : Covers (enumMember e) EnumMember.nodes := by
  refine (Builds.expectName _).bind fun name => (Builds.accept _).bind fun b => ?_
  refine .optional Expr.nodesOpt asSets he rfl (fun _ => rfl) fun value => ?_
  exact .node asSets (fun s => .enumMember ⟨s, name.text, value⟩) fun s => by
    simp [EnumMember.nodes]

theorem enumType_builds (he : Covers e Expr.nodes) : Covers (enumType e) TypeSpec.nodes := by
  refine Builds.advance.bind fun opener => ?_
  refine (Builds.commaList asSets (enumMember_builds he)).bind fun members => ?_
  refine (Builds.expectClosing _ _ _).bind fun _ => ?_
  refine Builds.bind (.of_countsUp countsUp.builtInOf_rel) fun base => ?_
  exact .node asSets (fun s => .typeSpec (.enum s members base)) fun s => by
    simp [TypeSpec.nodes]

/-! ### Blocks of variables and of types -/

theorem varBlockBody_builds (hy : Covers y TypeSpec.nodes) (hi : Covers i Expr.nodes) :
    Covers (varBlockBody y i) VarBlock.nodes := by
  refine Builds.advance.bind fun t => ?_
  dsimp only
  split
  · exact .fail _
  · next kind _ =>
    refine Builds.bind (.of_countsUp (.whileTokens countsUp.blockModifier_rel _))
      fun (constant, kept) => Builds.passes.bind fun n => ?_
    refine (Builds.many VarDecl.nodes asSets (countsUp.before_rel _) (fun size => ?_) n 0).bind
      fun decls => ?_
    · refine (varDecls_builds hy hi).bind fun ds => ?_
      exact Builds.bind (.of_countsUp (countsUp.checkDeclSizes_rel _ _)) fun _ => .same rfl
    refine Builds.atEnd.bind fun b => .ite (.fail_bind _) (Builds.advance.bind fun _ => ?_)
    refine (Builds.accept _).bind fun _ => ?_
    exact .node asSets (fun s => .varBlock ⟨s, kind, constant, kept, decls⟩) fun s => by
      simp [VarBlock.nodes]

theorem varBlock_builds (levels : Nat) : Covers (varBlock levels) VarBlock.nodes := by
  cases levels with
  | zero => exact .tooDeep
  | succ levels =>
    exact .nested (varBlockBody_builds (typeSpec_builds levels) (initializer_builds levels).toSets)

theorem varBlocks_builds (levels : Nat) :
    Builds (· ⊆ ·) known (varBlocks levels) fun bs => known ++ bs.flatMap VarBlock.nodes := by
  refine Builds.passes.bind fun n => ?_
  refine .many VarBlock.nodes asSets countsUp.seesVarBlock_rel (fun size => ?_) n 0
  refine (varBlock_builds levels).bind fun block => ?_
  exact (Builds.checkSize _ _).bind fun _ => .same (by simp)

theorem typeDecl_builds (levels : Nat) : Covers (typeDecl levels) TypeDecl.nodes := by
  refine (Builds.expectAnyName _).bind fun name => ?_
  refine Builds.bind (.of_countsUp countsUp.typeColon_rel) fun _ => ?_
  refine (Builds.sees _).bind fun b => ?_
  have rest (type : TypeSpec) : Builds (· ⊆ ·) type.nodes (do
      let initial ← if ← accept Mark.assign then some <$> initializer levels else pure none
      let _ ← accept Mark.semicolon
      node name.span fun s => ⟨s, name.nameText, type, initial⟩) TypeDecl.nodes := by
    refine (Builds.accept _).bind fun b => ?_
    refine .optional Expr.nodesOpt asSets (initializer_builds levels).toSets rfl (fun _ => rfl)
      fun initial => (Builds.accept _).bind fun _ => ?_
    exact .node asSets (fun s => .typeDecl ⟨s, name.nameText, type, initial⟩) fun s => by
      simp [TypeDecl.nodes]
  exact .ite ((enumType_builds (expression_builds levels).toSets).bind rest)
    ((typeSpec_builds levels).bind rest)

theorem typesDecl_builds (levels : Nat) : Covers (typesDecl levels) Decl.nodes := by
  refine Builds.advance.bind fun t => takePragmas_builds.bind fun first => ?_
  refine Builds.passes.bind fun n => ?_
  refine (Builds.many (fun x : List Pragma × TypeDecl => x.1.map Node.pragma ++ x.2.nodes) asSets
    (countsUp.before_rel _) (fun size => ?_) n 0).bind fun items => ?_
  · refine takePragmas_builds.bind fun pragmas => ?_
    refine ((typeDecl_builds levels).frame asSets _).bind fun d => ?_
    exact (Builds.checkSize _ _).bind fun _ => .same (by simp)
  refine Builds.atEnd.bind fun b => .ite (.fail_bind _) (Builds.advance.bind fun _ => ?_)
  refine (Builds.accept _).bind fun _ => .node asSets (fun s => .decl (.types s (items.map (·.2))
    (first ++ items.flatMap (·.1)))) fun s => ?_
  intro n
  simp only [Decl.nodes, List.mem_cons, List.mem_append, List.mem_flatMap, List.mem_map]
  rintro (rfl | ⟨d, ⟨x, hx, rfl⟩, below⟩ | ⟨p, hp | ⟨x, hx, hp⟩, rfl⟩)
  · exact .inl rfl
  · exact .inr (.inr ⟨x, hx, .inr below⟩)
  · exact .inr (.inl (.inr ⟨p, hp, rfl⟩))
  · exact .inr (.inr ⟨x, hx, .inl ⟨p, hp, rfl⟩⟩)

end Grammar

end Plc

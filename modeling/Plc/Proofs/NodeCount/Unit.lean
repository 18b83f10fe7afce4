/-
The bound on nodes bounds what a reading of declarations returns.

A compilation unit has at most as many different nodes as the limits allow.  Variables that are
declared together have equal types, initial values and annotations, at the same place in the text;
these were counted once, so the unit may have more nodes than different nodes.

* `unit_nodes_le` — a unit has no more different nodes than the limits allow;
* `unit_nodes_not_le` — it may have more nodes.
-/
import Plc.Proofs.NodeCount.Decl
import Plc.Proofs.Fallible
import Mathlib.Data.Set.Card

namespace Plc

namespace Grammar

variable {known : List Node}

/-! ### Program organization units -/

theorem pouBody_builds (levels : Nat) (blocks : List VarBlock) (close : Keyword) :
    Covers (pouBody levels blocks close) Stmt.nodesAll :=
  .declaring _ ((Builds.accept _).bind fun _ => (body_builds levels _).toSets)

theorem finishPou_builds (close : Keyword) (opener : Token) :
    Builds (· ⊆ ·) known (finishPou close opener) fun _ => known :=
  .of_countsUp (countsUp.finishPou_rel close opener)

theorem returnType_builds (levels : Nat) : Covers (returnType levels) TypeSpec.nodesOpt := by
  refine (Builds.accept _).bind fun b => .ite ?_ (.same rfl)
  rw [map_eq_pure_bind]
  exact (typeSpec_builds levels).bind fun type => .same rfl

theorem programDecl_builds (levels : Nat) : Covers (programDecl levels) Pou.nodes := by
  refine Builds.advance.bind fun t => (Builds.expectAnyName _).bind fun name => ?_
  refine headerExtras_builds.bind fun (attributes, pragmas) => ?_
  refine (varBlocks_builds levels).bind fun blocks => ?_
  refine ((pouBody_builds levels blocks _).frame asSets _).bind fun stmts => ?_
  refine (finishPou_builds _ t).bind fun _ => .node asSets (fun s => .decl (.pou (.program
    ⟨s, name.nameText, blocks, stmts, attributes, pragmas⟩))) fun s => ?_
  grind [Pou.nodes, Code.nodes]

theorem functionDecl_builds (levels : Nat) : Covers (functionDecl levels) Pou.nodes := by
  refine Builds.advance.bind fun t => (Builds.expectAnyName _).bind fun name => ?_
  refine (returnType_builds levels).bind fun type => ?_
  refine (headerExtras_builds.frame asSets _).bind fun (attributes, pragmas) => ?_
  refine (varBlocks_builds levels).bind fun blocks => ?_
  refine ((pouBody_builds levels blocks _).frame asSets _).bind fun stmts => ?_
  refine (finishPou_builds _ t).bind fun _ => .node asSets (fun s => .decl (.pou (.function
    ⟨s, name.nameText, blocks, stmts, attributes, pragmas⟩ type))) fun s => ?_
  grind [Pou.nodes, Code.nodes]

theorem organizationBlockDecl_builds (levels : Nat) :
    Covers (organizationBlockDecl levels) Pou.nodes := by
  refine Builds.advance.bind fun t => (Builds.expectAnyName _).bind fun name => ?_
  refine headerExtras_builds.bind fun (attributes, pragmas) => ?_
  refine (varBlocks_builds levels).bind fun blocks => ?_
  refine ((pouBody_builds levels blocks _).frame asSets _).bind fun stmts => ?_
  refine (finishPou_builds _ t).bind fun _ => .node asSets (fun s => .decl (.pou
    (.organizationBlock ⟨s, name.nameText, blocks, stmts, attributes, pragmas⟩))) fun s => ?_
  grind [Pou.nodes, Code.nodes]

/-- The variables of a data block share with the fields of its structure. -/
theorem variablesOf_builds {fields : List StructField}
    (shared : StructField.nodesAll fields ⊆ known) :
    Builds (· ⊆ ·) known (variablesOf fields) fun ds => known ++ ds.flatMap VarDecl.nodes := by
  unfold variablesOf
  induction fields generalizing known with
  | nil => exact .same (List.append_nil _)
  | cons f fields ih =>
    rw [← StructField.flatMap_nodes, List.flatMap_cons, List.append_subset,
      StructField.flatMap_nodes] at shared
    have first : Builds (· ⊆ ·) known
        (node f.span fun s => ⟨s, f.name, f.type, none, f.initial, []⟩)
        fun d => known ++ VarDecl.nodes d := by
      refine .node asSets (fun s => .varDecl ⟨s, f.name, f.type, none, f.initial, []⟩) fun s => ?_
      have below := shared.1
      rw [StructField.nodes_eq] at below
      grind [VarDecl.nodes]
    rw [List.mapM_cons]
    refine first.bind fun d => ?_
    refine (ih (List.subset_append_of_subset_left _ shared.2)).bind fun ds => .same ?_
    rw [List.flatMap_cons, List.append_assoc]

theorem dataBlockBase_builds (levels : Nat) :
    Covers (dataBlockBase levels) fun x => x.2.flatMap VarBlock.nodes := by
  refine Builds.peek.bind fun start => ?_
  split
  · exact Builds.advance.bind fun _ => .same rfl
  · exact Builds.advance.bind fun _ => .same rfl
  · refine (structType_builds (typeSpec_builds levels) (initializer_builds levels).toSets).bind
      fun (s, fields) => (Builds.accept _).bind fun _ => ?_
    refine (variablesOf_builds ?_).bind fun decls => ?_
    · exact List.subset_cons_self ..
    · have block : Builds (· ⊆ ·) ((TypeSpec.struct s fields).nodes ++ decls.flatMap VarDecl.nodes)
          (node start.span fun s => ({ span := s, declarations := decls } : VarBlock))
          VarBlock.nodes := by
        refine .node asSets (fun s => .varBlock { span := s, declarations := decls }) fun s => ?_
        grind [VarBlock.nodes]
      exact block.bind fun b => .same (by simp)
  · exact .same rfl

theorem dataBlockDecl_builds (levels : Nat) : Covers (dataBlockDecl levels) Pou.nodes := by
  refine Builds.advance.bind fun t => (Builds.expectAnyName _).bind fun name => ?_
  refine headerExtras_builds.bind fun (attributes, pragmas) => ?_
  refine ((dataBlockBase_builds levels).frame asSets _).bind fun (instanceOf, own) => ?_
  refine (varBlocks_builds levels).bind fun further => ?_
  refine ((pouBody_builds levels _ _).frame asSets _).bind fun stmts => ?_
  refine (finishPou_builds _ t).bind fun _ => .node asSets (fun s => .decl (.pou (.dataBlock
    ⟨s, name.nameText, own ++ further, stmts, attributes, pragmas⟩ instanceOf))) fun s => ?_
  grind [Pou.nodes, Code.nodes]

theorem methodBody_builds (levels : Nat) : Covers (methodBody levels) Method.nodes := by
  refine Builds.advance.bind fun t => ?_
  refine Builds.bind (.of_countsUp (.whileTokens countsUp.methodModifier_rel _)) fun m => ?_
  refine (Builds.expectAnyName _).bind fun name => (returnType_builds levels).bind fun type => ?_
  refine (varBlocks_builds levels).bind fun blocks => ?_
  refine ((pouBody_builds levels blocks _).frame asSets _).bind fun stmts => ?_
  refine (finishPou_builds _ t).bind fun _ => .node asSets (fun s => .decl (.pou (.method {
    code := { span := s, name := name.nameText, varBlocks := blocks, body := stmts }
    access := m.access
    final := m.final
    abstract := m.abstract
    override := m.override
    returnType := type }))) fun s => ?_
  grind [Method.nodes, Code.nodes]

theorem method_builds (levels : Nat) : Covers (method levels) Method.nodes := by
  cases levels with
  | zero => exact .tooDeep
  | succ levels => exact .nested (methodBody_builds levels)

/-- The nodes of the variables and methods read so far. -/
def Members.nodes (m : Members) : List Node :=
  m.blocks.flatMap VarBlock.nodes ++ m.methods.flatMap Method.nodes

theorem members_builds (levels : Nat) (m : Members) :
    Builds (· ⊆ ·) (known ++ m.nodes) (members levels m) fun all => known ++ all.nodes := by
  refine Builds.passes.bind fun n => ?_
  refine .repeating (fun m => known ++ m.nodes) (fun m => ?_) (fun m isMethod => ?_) n m
  · refine (Builds.sees _).bind fun b => .ite (.same rfl) ?_
    refine Builds.bind (.of_countsUp countsUp.seesVarBlock_rel) fun b => ?_
    exact .ite (.same rfl) (.same rfl)
  · refine .ite (.declaring _ ?_) ?_
    · refine ((method_builds levels).frame asSets _).bind fun x => (Builds.checkSize _ _).bind
        fun _ => .pure asSets ?_
      grind [Members.nodes]
    · refine ((varBlock_builds levels).frame asSets _).bind fun block => (Builds.checkSize _ _).bind
        fun _ => .pure asSets ?_
      grind [Members.nodes]

theorem members_none_builds (levels : Nat) :
    Builds (· ⊆ ·) known (members levels {}) fun all => known ++ all.nodes :=
  (members_builds levels {}).given asSets (by simp [Members.nodes])

theorem classHeader_keeps (noun : String) :
    Builds (· ⊆ ·) known (classHeader noun) fun _ => known :=
  .of_countsUp (countsUp.classHeader_rel noun)

theorem functionBlockDecl_builds (levels : Nat) : Covers (functionBlockDecl levels) Pou.nodes := by
  refine Builds.advance.bind fun t => (classHeader_keeps _).bind fun (name, heritage) => ?_
  refine headerExtras_builds.bind fun (attributes, pragmas) => ?_
  refine (members_none_builds levels).bind fun first => ?_
  have inner : Builds (· ⊆ ·) (pragmas.map Node.pragma ++ first.nodes) (declaring
      (namesOf first.blocks) do
        let _ ← accept Keyword.BEGIN
        let stmts ← body levels [.END_FUNCTION_BLOCK, .METHOD]
        let all ← members levels first
        return (stmts, all))
      fun x => pragmas.map Node.pragma ++ Stmt.nodesAll x.1 ++ x.2.nodes := by
    refine .declaring _ ((Builds.accept _).bind fun _ => ?_)
    refine ((body_builds levels _).toSets.frame asSets _).bind fun stmts => ?_
    have further : Builds (· ⊆ ·) (pragmas.map Node.pragma ++ Stmt.nodesAll stmts ++ first.nodes)
        (members levels first) fun all => pragmas.map Node.pragma ++ Stmt.nodesAll stmts ++ all.nodes :=
      members_builds levels first
    refine (further.given asSets ?_).bind fun all => .same rfl
    grind
  refine inner.bind fun (stmts, all) => (finishPou_builds _ t).bind fun _ => ?_
  refine .node asSets (fun s => .decl (.pou (.functionBlock
    ⟨s, name.nameText, all.blocks, stmts, attributes, pragmas⟩ heritage all.methods))) fun s => ?_
  grind [Pou.nodes, Code.nodes, Members.nodes]

theorem classDecl_builds (levels : Nat) : Covers (classDecl levels) Pou.nodes := by
  refine Builds.advance.bind fun t => (classHeader_keeps _).bind fun (name, heritage) => ?_
  refine (members_none_builds levels).bind fun m => (finishPou_builds _ t).bind fun _ => ?_
  refine .node asSets (fun s => .decl (.pou (.classDecl
    { span := s, name := name.nameText, varBlocks := m.blocks } heritage m.methods))) fun s => ?_
  grind [Pou.nodes, Code.nodes, Members.nodes, Stmt.nodesAll]

theorem interfaceDecl_builds (levels : Nat) : Covers (interfaceDecl levels) Pou.nodes := by
  refine Builds.advance.bind fun t => (Builds.expectAnyName _).bind fun name => ?_
  refine (Builds.accept _).bind fun b => ?_
  have rest (parents : List String) : Covers (do
      let methods ← many (sees Keyword.METHOD) (fun size => do
        let m ← method levels
        checkSize (size + 1) m.code.span
        return [m]) (← passes) 0
      finishPou .END_INTERFACE t
      node t.span fun s => .interface { span := s, name := name.nameText } parents methods)
      Pou.nodes := by
    refine Builds.passes.bind fun n => ?_
    refine (Builds.many Method.nodes asSets (countsUp.sees_rel _) (fun size => ?_) n 0).bind
      fun methods => (finishPou_builds _ t).bind fun _ => ?_
    · refine (method_builds levels).bind fun m => ?_
      exact (Builds.checkSize _ _).bind fun _ => .same (by simp)
    · refine .node asSets (fun s => .decl (.pou (.interface
        { span := s, name := name.nameText } parents methods))) fun s => ?_
      grind [Pou.nodes, Code.nodes, Stmt.nodesAll]
  refine .ite (Builds.bind (.of_countsUp ?_) rest) (rest [])
  exact countsUp.interfaceNames_rel

/-! ### Declarations -/

/-- The nodes of a declaration, if there is one. -/
def declNodes : Option Decl → List Node
  | some d => d.nodes
  | none => []

variable {declaration : Rule (Option Decl)}

theorem declarationsUntil_builds (hup : CountsUp declaration) (hd : Covers declaration declNodes)
    (close : Option Keyword) : Covers (declarationsUntil close declaration) Decl.nodesAll := by
  refine Builds.passes.bind fun n => ?_
  refine (Builds.many Decl.nodes asSets ?_ (fun size => ?_) n 0).imp asSets fun ds => ?_
  · exact CountsUp.bind countsUp.lexeme_rel fun l => countsUp.pure _
  · refine (Builds.recovering hup hd).bind fun x => ?_
    split
    · exact (Builds.checkSize _ _).bind fun _ => .same (by simp [declNodes])
    · exact .pure asSets (List.nil_subset _)
  · rw [Decl.flatMap_nodes]
    exact List.Subset.refl _

theorem spaceDecl_builds (hup : CountsUp declaration) (hd : Covers declaration declNodes) :
    Covers (spaceDecl declaration) Decl.nodes := by
  refine Builds.advance.bind fun t => (Builds.accept _).bind fun internal => ?_
  refine Builds.bind (.of_countsUp countsUp.dottedName_rel) fun name => Builds.passes.bind fun n => ?_
  refine (Builds.many (fun _ => []) asSets (countsUp.accept_rel _) (fun size => ?_) n 0).bind
    fun usings => ?_
  · refine Builds.bind (.of_countsUp countsUp.dottedName_rel) fun path => ?_
    exact Builds.expectSemicolon.bind fun _ => (Builds.checkSize _ _).bind fun _ => .same rfl
  refine ((declarationsUntil_builds hup hd _).frame asSets _).bind fun decls => ?_
  refine (finishPou_builds _ t).bind fun _ => ?_
  refine .node asSets (fun s => .decl (.space s name internal usings decls)) fun s => ?_
  grind [Decl.nodes]

theorem pouDecl_builds {rule : Rule Pou} (h : Covers rule Pou.nodes) :
    Covers (pouDecl rule) declNodes := by
  unfold pouDecl
  rw [map_eq_pure_bind]
  exact Builds.bind h fun p => .same (by simp [declNodes, Decl.nodes])

theorem declarationBody_builds (hup : CountsUp declaration) (hd : Covers declaration declNodes)
    (levels : Nat) :
    Covers (declarationBody (functionBlockDecl levels) declaration levels) declNodes := by
  refine Builds.peek.bind fun t => ?_
  have present {rule : Rule Decl} (h : Covers rule Decl.nodes) :
      Covers (some <$> rule) declNodes := by
    rw [map_eq_pure_bind]
    exact Builds.bind h fun d => .same rfl
  split
  · exact pouDecl_builds (programDecl_builds levels)
  · exact pouDecl_builds (functionDecl_builds levels)
  · exact pouDecl_builds (functionBlockDecl_builds levels)
  · exact pouDecl_builds (classDecl_builds levels)
  · exact pouDecl_builds (interfaceDecl_builds levels)
  · refine pouDecl_builds ?_
    rw [map_eq_pure_bind]
    exact (method_builds levels).bind fun m => .same rfl
  · exact pouDecl_builds (dataBlockDecl_builds levels)
  · exact pouDecl_builds (organizationBlockDecl_builds levels)
  · exact present (typesDecl_builds levels)
  · refine (varBlock_builds levels).bind fun block => ?_
    rw [map_eq_pure_bind]
    have whole : Builds (· ⊆ ·) block.nodes (node t.span fun s => .globals s block) Decl.nodes :=
      .node asSets (fun s => .decl (.globals s block)) fun s => by simp [Decl.nodes]
    exact whole.bind fun d => .same rfl
  · exact present (spaceDecl_builds hup hd)
  · exact Builds.advance.bind fun _ => .same rfl
  · exact .failExpecting _

/-! ### Whole units -/

theorem countsUp_declaration (levels : Nat) :
    CountsUp (declarationWith functionBlockDecl levels) :=
  countsUp.declaration_rel (.refl levels)

theorem declarationWith_builds (levels : Nat) :
    Covers (declarationWith functionBlockDecl levels) declNodes := by
  induction levels with
  | zero => exact .tooDeep
  | succ levels ih => exact .nested (declarationBody_builds (countsUp_declaration levels) ih levels)

theorem compilationUnit_builds (levels : Nat) :
    Triple (Paid (· ⊆ ·) 0 []) (compilationUnit levels) fun u s c =>
      Paid (· ⊆ ·) 0 (Node.unit u).nodes s c ∧ c.usage.nodes ≤ s.limits.maxNodes := by
  have declarations := declarationsUntil_builds (countsUp_declaration levels)
    (declarationWith_builds levels) none
  refine (declarations 0).bind fun ds => (Builds.of_countsUp countsUp.sourceText 0).bind fun text => ?_
  have counted := Builds.recordNode asSets ⟨0, text.length, Nat.zero_le _⟩ (Decl.nodesAll ds)
    (.unit ⟨⟨0, text.length, Nat.zero_le _⟩, ds⟩) 0
  exact Triple.bind (fun s c _ c' hc hrun => And.intro (counted hc hrun) (recordNode_le _ hc hrun))
    fun _ => .pure fun s c h => h

end Grammar

namespace Reading

open Grammar

/-- A unit that was read with a bound on nodes has no more different nodes. -/
theorem ncard_nodes_le {r : Reading} {recovers : Bool} {u : CompilationUnit}
    {errors : List SyntaxError} (h : run (compilationUnit r.limits.maxDepth) r.source r.limits
      r.dialect recovers = .ok (u, errors)) :
    {n | n ∈ (Node.unit u).nodes}.ncard ≤ r.limits.maxNodes := by
  classical
  obtain ⟨ts, c, -, hrun, -⟩ := run_eq_ok_iff.1 h
  have start : Paid (· ⊆ ·) 0 [] ⟨r.source, r.dialect, r.limits, recovers,
      ts.getLastD (Scanner.finish r.source.length)⟩ (.before ts) :=
    ⟨[], List.Subset.refl _, Nat.zero_le _⟩
  obtain ⟨⟨counted, covers, paid⟩, within⟩ := compilationUnit_builds _ start hrun
  have below : {n | n ∈ (Node.unit u).nodes} ⊆ (counted.toFinset : Set Node) :=
    fun n hn => List.mem_toFinset.2 (covers hn)
  calc {n | n ∈ (Node.unit u).nodes}.ncard
      ≤ (counted.toFinset : Set Node).ncard := Set.ncard_le_ncard below (Finset.finite_toSet _)
    _ = counted.toFinset.card := Set.ncard_coe_finset _
    _ ≤ counted.length := counted.toFinset_card_le
    _ ≤ r.limits.maxNodes := by
      rw [Nat.zero_add] at paid
      exact paid.trans within

/-- Nodes that are all different are as many as their list is long. -/
theorem ncard_eq_length {ns : List Node} (h : ns.Nodup) : {n | n ∈ ns}.ncard = ns.length := by
  classical
  rw [← List.toFinset_card_of_nodup h, ← Set.ncard_coe_finset, List.coe_toFinset]

/-- The bound on nodes bounds the different nodes of a unit, whether errors end the reading or are
recovered from.  It bounds the length of a walk where no node comes up twice, so where no two
variables are declared together. -/
theorem unit_nodes_le (r : Reading) :
    (∀ u, r.unit = .ok u →
      {n | n ∈ (Node.unit u).nodes}.ncard ≤ r.limits.maxNodes ∧
        ((Node.unit u).nodes.Nodup → (Node.unit u).nodes.length ≤ r.limits.maxNodes)) ∧
    ∀ u errors, r.unitRecovering = .ok (u, errors) →
      {n | n ∈ (Node.unit u).nodes}.ncard ≤ r.limits.maxNodes ∧
        ((Node.unit u).nodes.Nodup → (Node.unit u).nodes.length ≤ r.limits.maxNodes) := by
  have bounded {recovers : Bool} {u : CompilationUnit} {errors : List SyntaxError}
      (h : run (compilationUnit r.limits.maxDepth) r.source r.limits r.dialect recovers =
        .ok (u, errors)) :
      {n | n ∈ (Node.unit u).nodes}.ncard ≤ r.limits.maxNodes ∧
        ((Node.unit u).nodes.Nodup → (Node.unit u).nodes.length ≤ r.limits.maxNodes) :=
    ⟨ncard_nodes_le h, fun different => ncard_eq_length different ▸ ncard_nodes_le h⟩
  refine ⟨fun u h => ?_, fun u errors h => bounded h⟩
  obtain ⟨errors, hrun⟩ := strictly_eq_ok_iff.1 h
  exact bounded hrun

/-- Two variables that are declared together, read with a bound of six nodes. -/
def twoVariables : Reading :=
  { source := "VAR_GLOBAL a, b : INT; END_VAR".toList, limits := { maxNodes := 6 } }

/-- The type of the two variables is counted once and stands below both. -/
theorem twoVariables_unit :
    ∃ u, twoVariables.unit = .ok u ∧ (Node.unit u).nodes.length = 7 := by
  have walk : twoVariables.unit.toOption.map (fun u => (Node.unit u).nodes.length) = some 7 := by
    decide +kernel
  exact ok_of_map walk

theorem unit_nodes_le_twoVariables :
    ∃ u, twoVariables.unit = .ok u ∧ (Node.unit u).nodes.length = 7 ∧
      {n | n ∈ (Node.unit u).nodes}.ncard ≤ 6 := by
  obtain ⟨u, hu, seven⟩ := twoVariables_unit
  exact ⟨u, hu, seven, ((unit_nodes_le twoVariables).1 u hu).1⟩

/-- Variables that are declared together may take a unit beyond the bound. -/
theorem unit_nodes_not_le :
    ¬∀ (r : Reading) u, r.unit = .ok u → (Node.unit u).nodes.length ≤ r.limits.maxNodes := by
  intro h
  obtain ⟨u, hu, seven⟩ := twoVariables_unit
  exact absurd (h twoVariables u hu) (by rw [seven]; decide)

end Reading

end Plc

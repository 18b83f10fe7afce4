/-
Trees as nodes and children.

A `Node` is any part of a syntax tree that has a place in the text.  `Node.children`
lists the parts directly below a node, in the order of its fields, and `Node.nodes`
a node and everything below it.

* `Node.nodes_eq` — a node comes before everything below its children;
* `Node.walk` — the same nodes, by a walk with a stack.
-/
import Plc.Tree.Anatomy
import Plc.Tree.Decl

namespace Plc

/-- A part of a syntax tree. -/
inductive Node where
  | expr (e : Expr)
  | arg (a : Arg)
  | selector (s : CaseSelector)
  | stmt (s : Stmt)
  | ifBranch (b : IfBranch)
  | caseBranch (b : CaseBranch)
  | dimension (d : Dimension)
  | enumMember (m : EnumMember)
  | structField (f : StructField)
  | typeSpec (t : TypeSpec)
  | pragma (p : Pragma)
  | varDecl (d : VarDecl)
  | varBlock (b : VarBlock)
  | typeDecl (d : TypeDecl)
  | decl (d : Decl)
  | unit (u : CompilationUnit)

namespace Node

/-- The place of the node in the text. -/
def span : Node → Span
  | expr e => e.span
  | arg a => a.span
  | selector s => s.span
  | stmt s => s.span
  | ifBranch b => b.span
  | caseBranch b => b.span
  | dimension d => d.span
  | enumMember m => m.span
  | structField f => f.span
  | typeSpec t => t.span
  | pragma p => p.span
  | varDecl d => d.span
  | varBlock b => b.span
  | typeDecl d => d.span
  | decl d => d.span
  | unit u => u.span

/-! ### Children -/

/-- The parts of a variable. -/
def ofVariable : Variable → List Node
  | .named _ _ _ | .address _ _ _ => []
  | .member _ base _ | .deref _ base => [expr (.variable base)]
  | .element _ base indices => expr (.variable base) :: indices.map expr

/-- The parts of an expression. -/
def ofExpr : Expr → List Node
  | .literal _ _ => []
  | .variable v => ofVariable v
  | .unary _ _ x => [expr x]
  | .binary _ _ l r => [expr l, expr r]
  | .paren _ x => [expr x]
  | .call _ _ args => args.map arg
  | .repeated _ _ x => x.toList.map expr
  | .arrayInit _ es => es.map expr
  | .structInit _ fs => fs.map arg

/-- The parts of an argument. -/
def ofArg : Arg → List Node
  | .positional _ x | .named _ _ x => [expr x]
  | .output _ _ v _ => [expr (.variable v)]
  | .inferred _ => []

/-- The parts of a statement. -/
def ofStmt : Stmt → List Node
  | .assignment _ target _ value => [expr (.variable target), expr value]
  | .ifThen _ first elsifs otherwise =>
    ifBranch first :: elsifs.map ifBranch ++ (otherwise.getD []).map stmt
  | .caseOf _ x branches otherwise =>
    expr x :: branches.map caseBranch ++ (otherwise.getD []).map stmt
  | .forLoop _ _ start stop step body =>
    expr start :: expr stop :: step.toList.map expr ++ body.map stmt
  | .whileLoop _ condition body => expr condition :: body.map stmt
  | .repeatLoop _ body condition => body.map stmt ++ [expr condition]
  | .leave _ value => value.toList.map expr
  | .call _ callSpan name args => [expr (.call callSpan name args)]
  | .invoke _ callee args => expr (.variable callee) :: args.map arg
  | .region _ _ body => body.map stmt
  | .exitLoop _ | .nextPass _ | .empty _ | .goto _ _ | .label _ _ => []

/-- The parts of a type. -/
def ofTypeSpec : TypeSpec → List Node
  | .elementary _ _ length => length.toList.map expr
  | .array _ dims element => dims.map dimension ++ [typeSpec element]
  | .struct _ fields => fields.map structField
  | .ref _ inner => [typeSpec inner]
  | .named _ _ => []
  | .enum _ members _ => members.map enumMember
  | .subrange _ _ low high => [expr low, expr high]

/-- The parts of what every organization unit has. -/
def ofCode (c : Code) : List Node :=
  c.varBlocks.map varBlock ++ c.body.map stmt ++ c.pragmas.map pragma

/-- The parts of an organization unit. -/
def ofPou : Pou → List Node
  | .function c t => ofCode c ++ t.toList.map typeSpec
  | .functionBlock c _ ms | .classDecl c _ ms | .interface c _ ms =>
    ofCode c ++ ms.map fun m => decl (.pou (.method m))
  | .method m => ofCode m.code ++ m.returnType.toList.map typeSpec
  | .program c | .dataBlock c _ | .organizationBlock c => ofCode c

/-- The parts of a declaration. -/
def ofDecl : Decl → List Node
  | .pou p => ofPou p
  | .types _ ts ps => ts.map typeDecl ++ ps.map pragma
  | .globals _ block => [varBlock block]
  | .space _ _ _ _ ds => ds.map decl

/-- The parts directly below a node, in the order of its fields. -/
def children : Node → List Node
  | expr e => ofExpr e
  | arg a => ofArg a
  | selector (.value _ v) => [expr v]
  | selector (.range _ l h) => [expr l, expr h]
  | stmt s => ofStmt s
  | ifBranch (.mk _ condition body) => expr condition :: body.map stmt
  | caseBranch (.mk _ selectors body) => selectors.map selector ++ body.map stmt
  | dimension d => [expr d.low, expr d.high]
  | enumMember m => m.value.toList.map expr
  | structField (.mk _ _ type initial) => typeSpec type :: initial.toList.map expr
  | typeSpec t => ofTypeSpec t
  | pragma _ => []
  | varDecl d => typeSpec d.type :: d.initial.toList.map expr ++ d.pragmas.map pragma
  | varBlock b => b.declarations.map varDecl
  | typeDecl d => typeSpec d.type :: d.initial.toList.map expr
  | decl d => ofDecl d
  | unit u => u.topLevel.map decl

end Node

/-! ### Whole walks -/

mutual

/-- A variable and everything below it. -/
def Variable.nodes : Variable → List Node
  | .named s name style => [.expr (.variable (.named s name style))]
  | .address s text a => [.expr (.variable (.address s text a))]
  | .member s base m => .expr (.variable (.member s base m)) :: base.nodes
  | .deref s base => .expr (.variable (.deref s base)) :: base.nodes
  | .element s base indices =>
    .expr (.variable (.element s base indices)) :: (base.nodes ++ Expr.nodesAll indices)

/-- An expression and everything below it. -/
def Expr.nodes : Expr → List Node
  | .literal s l => [.expr (.literal s l)]
  | .variable v => v.nodes
  | .unary s op x => .expr (.unary s op x) :: x.nodes
  | .binary s op l r => .expr (.binary s op l r) :: (l.nodes ++ r.nodes)
  | .paren s x => .expr (.paren s x) :: x.nodes
  | .call s name args => .expr (.call s name args) :: Arg.nodesAll args
  | .repeated s n (some x) => .expr (.repeated s n (some x)) :: x.nodes
  | .repeated s n none => [.expr (.repeated s n none)]
  | .arrayInit s es => .expr (.arrayInit s es) :: Expr.nodesAll es
  | .structInit s fs => .expr (.structInit s fs) :: Arg.nodesAll fs

/-- An argument and everything below it. -/
def Arg.nodes : Arg → List Node
  | .positional s x => .arg (.positional s x) :: x.nodes
  | .named s name x => .arg (.named s name x) :: x.nodes
  | .output s name v negated => .arg (.output s name v negated) :: v.nodes
  | .inferred s => [.arg (.inferred s)]

/-- Some expressions and everything below them. -/
def Expr.nodesAll : List Expr → List Node
  | [] => []
  | x :: xs => x.nodes ++ Expr.nodesAll xs

/-- Some arguments and everything below them. -/
def Arg.nodesAll : List Arg → List Node
  | [] => []
  | a :: as => a.nodes ++ Arg.nodesAll as

end

/-- An expression, if there is one, and everything below it. -/
def Expr.nodesOpt : Option Expr → List Node
  | some e => e.nodes
  | none => []

/-- A label of a branch and everything below it. -/
def CaseSelector.nodes : CaseSelector → List Node
  | .value s v => .selector (.value s v) :: v.nodes
  | .range s l h => .selector (.range s l h) :: (l.nodes ++ h.nodes)

mutual

/-- A statement and everything below it. -/
def Stmt.nodes : Stmt → List Node
  | .assignment s target op value =>
    .stmt (.assignment s target op value) :: (target.nodes ++ value.nodes)
  | .ifThen s (.mk bs condition body) elsifs otherwise =>
    .stmt (.ifThen s (.mk bs condition body) elsifs otherwise) ::
      .ifBranch (.mk bs condition body) ::
      (condition.nodes ++ Stmt.nodesAll body ++ IfBranch.nodesAll elsifs ++
        match otherwise with
        | some ss => Stmt.nodesAll ss
        | none => [])
  | .caseOf s selector branches otherwise =>
    .stmt (.caseOf s selector branches otherwise) ::
      (selector.nodes ++ CaseBranch.nodesAll branches ++
        match otherwise with
        | some ss => Stmt.nodesAll ss
        | none => [])
  | .forLoop s control start stop step body =>
    .stmt (.forLoop s control start stop step body) ::
      (start.nodes ++ stop.nodes ++ Expr.nodesOpt step ++ Stmt.nodesAll body)
  | .whileLoop s condition body =>
    .stmt (.whileLoop s condition body) :: (condition.nodes ++ Stmt.nodesAll body)
  | .repeatLoop s body condition =>
    .stmt (.repeatLoop s body condition) :: (Stmt.nodesAll body ++ condition.nodes)
  | .leave s value => .stmt (.leave s value) :: Expr.nodesOpt value
  | .call s callSpan name args =>
    .stmt (.call s callSpan name args) :: .expr (.call callSpan name args) :: Arg.nodesAll args
  | .invoke s callee args => .stmt (.invoke s callee args) :: (callee.nodes ++ Arg.nodesAll args)
  | .region s title body => .stmt (.region s title body) :: Stmt.nodesAll body
  | s => [.stmt s]

/-- Some statements and everything below them. -/
def Stmt.nodesAll : List Stmt → List Node
  | [] => []
  | s :: ss => s.nodes ++ Stmt.nodesAll ss

/-- Some branches and everything below them. -/
def IfBranch.nodesAll : List IfBranch → List Node
  | [] => []
  | .mk s condition body :: bs =>
    .ifBranch (.mk s condition body) ::
      (condition.nodes ++ Stmt.nodesAll body ++ IfBranch.nodesAll bs)

/-- Some branches and everything below them. -/
def CaseBranch.nodesAll : List CaseBranch → List Node
  | [] => []
  | .mk s selectors body :: bs =>
    .caseBranch (.mk s selectors body) ::
      (selectors.flatMap CaseSelector.nodes ++ Stmt.nodesAll body ++ CaseBranch.nodesAll bs)

end

/-- A dimension and everything below it. -/
def Dimension.nodes (d : Dimension) : List Node :=
  .dimension d :: (d.low.nodes ++ d.high.nodes)

/-- A member of an enumeration and everything below it. -/
def EnumMember.nodes (m : EnumMember) : List Node :=
  .enumMember m :: Expr.nodesOpt m.value

mutual

/-- A type and everything below it. -/
def TypeSpec.nodes : TypeSpec → List Node
  | .elementary s name length => .typeSpec (.elementary s name length) :: Expr.nodesOpt length
  | .array s dims element =>
    .typeSpec (.array s dims element) :: (dims.flatMap Dimension.nodes ++ element.nodes)
  | .struct s fields => .typeSpec (.struct s fields) :: StructField.nodesAll fields
  | .ref s inner => .typeSpec (.ref s inner) :: inner.nodes
  | .named s name => [.typeSpec (.named s name)]
  | .enum s members base => .typeSpec (.enum s members base) :: members.flatMap EnumMember.nodes
  | .subrange s base low high =>
    .typeSpec (.subrange s base low high) :: (low.nodes ++ high.nodes)

/-- Some fields and everything below them. -/
def StructField.nodesAll : List StructField → List Node
  | [] => []
  | .mk s name type initial :: fs =>
    .structField (.mk s name type initial) ::
      (type.nodes ++ Expr.nodesOpt initial ++ StructField.nodesAll fs)

end

/-- A type, if there is one, and everything below it. -/
def TypeSpec.nodesOpt : Option TypeSpec → List Node
  | some t => t.nodes
  | none => []

/-- A variable's declaration and everything below it. -/
def VarDecl.nodes (d : VarDecl) : List Node :=
  .varDecl d :: (d.type.nodes ++ Expr.nodesOpt d.initial ++ d.pragmas.map .pragma)

/-- A block of variables and everything below it. -/
def VarBlock.nodes (b : VarBlock) : List Node :=
  .varBlock b :: b.declarations.flatMap VarDecl.nodes

/-- Everything below what every organization unit has. -/
def Code.nodes (c : Code) : List Node :=
  c.varBlocks.flatMap VarBlock.nodes ++ Stmt.nodesAll c.body ++ c.pragmas.map .pragma

/-- A method and everything below it. -/
def Method.nodes (m : Method) : List Node :=
  .decl (.pou (.method m)) :: (m.code.nodes ++ TypeSpec.nodesOpt m.returnType)

/-- An organization unit and everything below it. -/
def Pou.nodes : Pou → List Node
  | .function c t => .decl (.pou (.function c t)) :: (c.nodes ++ TypeSpec.nodesOpt t)
  | .functionBlock c h ms =>
    .decl (.pou (.functionBlock c h ms)) :: (c.nodes ++ ms.flatMap Method.nodes)
  | .classDecl c h ms => .decl (.pou (.classDecl c h ms)) :: (c.nodes ++ ms.flatMap Method.nodes)
  | .interface c ps ms => .decl (.pou (.interface c ps ms)) :: (c.nodes ++ ms.flatMap Method.nodes)
  | .method m => m.nodes
  | .program c => .decl (.pou (.program c)) :: c.nodes
  | .dataBlock c i => .decl (.pou (.dataBlock c i)) :: c.nodes
  | .organizationBlock c => .decl (.pou (.organizationBlock c)) :: c.nodes

/-- A named type and everything below it. -/
def TypeDecl.nodes (d : TypeDecl) : List Node :=
  .typeDecl d :: (d.type.nodes ++ Expr.nodesOpt d.initial)

mutual

/-- A declaration and everything below it. -/
def Decl.nodes : Decl → List Node
  | .pou p => p.nodes
  | .types s ts ps =>
    .decl (.types s ts ps) :: (ts.flatMap TypeDecl.nodes ++ ps.map .pragma)
  | .globals s block => .decl (.globals s block) :: block.nodes
  | .space s name internal usings ds =>
    .decl (.space s name internal usings ds) :: Decl.nodesAll ds

/-- Some declarations and everything below them. -/
def Decl.nodesAll : List Decl → List Node
  | [] => []
  | d :: ds => d.nodes ++ Decl.nodesAll ds

end

/-- A node and everything below it, each node before its children. -/
def Node.nodes : Node → List Node
  | .expr e => e.nodes
  | .arg a => a.nodes
  | .selector s => s.nodes
  | .stmt s => s.nodes
  | .ifBranch b => IfBranch.nodesAll [b]
  | .caseBranch b => CaseBranch.nodesAll [b]
  | .dimension d => d.nodes
  | .enumMember m => m.nodes
  | .structField f => StructField.nodesAll [f]
  | .typeSpec t => t.nodes
  | .pragma p => [.pragma p]
  | .varDecl d => d.nodes
  | .varBlock b => b.nodes
  | .typeDecl d => d.nodes
  | .decl d => d.nodes
  | .unit u => .unit u :: Decl.nodesAll u.topLevel

/-! ### Walks and children -/

theorem Expr.nodesAll_eq (es : List Expr) :
    Expr.nodesAll es = (es.map Node.expr).flatMap Node.nodes := by
  induction es with
  | nil => rfl
  | cons e es ih => simp [Expr.nodesAll, ih, Node.nodes]

theorem Arg.nodesAll_eq (as : List Arg) :
    Arg.nodesAll as = (as.map Node.arg).flatMap Node.nodes := by
  induction as with
  | nil => rfl
  | cons a as ih => simp [Arg.nodesAll, ih, Node.nodes]

theorem Stmt.nodesAll_eq (ss : List Stmt) :
    Stmt.nodesAll ss = (ss.map Node.stmt).flatMap Node.nodes := by
  induction ss with
  | nil => rfl
  | cons s ss ih => simp [Stmt.nodesAll, ih, Node.nodes]

theorem IfBranch.nodesAll_eq (bs : List IfBranch) :
    IfBranch.nodesAll bs = (bs.map Node.ifBranch).flatMap Node.nodes := by
  induction bs with
  | nil => rfl
  | cons b bs ih =>
    cases b
    simp [IfBranch.nodesAll, ih, Node.nodes]

theorem CaseBranch.nodesAll_eq (bs : List CaseBranch) :
    CaseBranch.nodesAll bs = (bs.map Node.caseBranch).flatMap Node.nodes := by
  induction bs with
  | nil => rfl
  | cons b bs ih =>
    cases b
    simp [CaseBranch.nodesAll, ih, Node.nodes]

theorem StructField.nodesAll_eq (fs : List StructField) :
    StructField.nodesAll fs = (fs.map Node.structField).flatMap Node.nodes := by
  induction fs with
  | nil => rfl
  | cons f fs ih =>
    cases f
    simp [StructField.nodesAll, ih, Node.nodes]

theorem Decl.nodesAll_eq (ds : List Decl) :
    Decl.nodesAll ds = (ds.map Node.decl).flatMap Node.nodes := by
  induction ds with
  | nil => rfl
  | cons d ds ih => simp [Decl.nodesAll, ih, Node.nodes]

theorem Expr.nodesOpt_eq (e : Option Expr) :
    Expr.nodesOpt e = (e.toList.map Node.expr).flatMap Node.nodes := by
  cases e <;> simp [Expr.nodesOpt, Node.nodes]

theorem TypeSpec.nodesOpt_eq (t : Option TypeSpec) :
    TypeSpec.nodesOpt t = (t.toList.map Node.typeSpec).flatMap Node.nodes := by
  cases t <;> simp [TypeSpec.nodesOpt, Node.nodes]

theorem Pragma.flatMap_nodes (ps : List Pragma) :
    (ps.map Node.pragma).flatMap Node.nodes = ps.map Node.pragma := by
  induction ps with
  | nil => rfl
  | cons p ps ih => simp [ih, Node.nodes]

namespace Node

theorem flatMap_nodes_ofVariable (v : Variable) :
    (ofVariable v).flatMap nodes = v.nodes.tail := by
  cases v <;> simp [ofVariable, Variable.nodes, nodes, Expr.nodes, Expr.nodesAll_eq]

theorem flatMap_nodes_ofCode (c : Code) : (ofCode c).flatMap nodes = c.nodes := by
  simp only [ofCode, Code.nodes, List.flatMap_append, Stmt.nodesAll_eq, Pragma.flatMap_nodes]
  congr 2
  simp [List.flatMap_map, nodes]

theorem flatMap_nodes_methods (ms : List Method) :
    (ms.map fun m => decl (.pou (.method m))).flatMap nodes = ms.flatMap Method.nodes := by
  simp only [List.flatMap_map]
  rfl

/-- A node comes before everything below its children. -/
theorem nodes_eq (n : Node) : n.nodes = n :: n.children.flatMap nodes := by
  -- One case for each kind of node. Both sides list the same parts, so that they differ by the
  -- recursion that is unfolded once, and by lists of parts that are mapped or not.
  cases n with
  | expr e =>
    cases e with
    -- A variable is its own first node, and what is left is below it.
    | «variable» v =>
      simp only [nodes, Expr.nodes, children, ofExpr, flatMap_nodes_ofVariable]
      cases v <;> rfl
    | repeated s n x => cases x <;> simp [nodes, Expr.nodes, children, ofExpr]
    | _ => simp [nodes, Expr.nodes, children, ofExpr, Expr.nodesAll_eq, Arg.nodesAll_eq]
  | arg a => cases a <;> simp [nodes, Arg.nodes, children, ofArg, Expr.nodes]
  | selector s => cases s <;> simp [nodes, CaseSelector.nodes, children]
  | stmt s =>
    cases s with
    | ifThen s first elsifs otherwise =>
      cases first
      cases otherwise <;>
        simp [nodes, Stmt.nodes, children, ofStmt, Stmt.nodesAll_eq, IfBranch.nodesAll_eq,
          IfBranch.nodesAll]
    | caseOf s x bs otherwise =>
      cases otherwise <;>
        simp [nodes, Stmt.nodes, children, ofStmt, Stmt.nodesAll_eq, CaseBranch.nodesAll_eq]
    | _ =>
      simp [nodes, Stmt.nodes, children, ofStmt, Stmt.nodesAll_eq, Expr.nodesOpt_eq, Expr.nodes,
        Arg.nodesAll_eq]
  | ifBranch b =>
    cases b
    simp [nodes, IfBranch.nodesAll, children, Stmt.nodesAll_eq]
  | caseBranch b =>
    cases b
    simp [nodes, CaseBranch.nodesAll, children, Stmt.nodesAll_eq, List.flatMap_map]
  | dimension d => simp [nodes, Dimension.nodes, children]
  | enumMember m => simp [nodes, EnumMember.nodes, children, Expr.nodesOpt_eq]
  | structField f =>
    cases f
    simp [nodes, StructField.nodesAll, children, Expr.nodesOpt_eq]
  | typeSpec t =>
    cases t with
    | struct s fs => simp only [nodes, TypeSpec.nodes, children, ofTypeSpec, StructField.nodesAll_eq]
    | _ =>
      simp [nodes, TypeSpec.nodes, children, ofTypeSpec, Expr.nodesOpt_eq, List.flatMap_map]
  | pragma p => simp [nodes, children]
  | varDecl d =>
    simp only [nodes, VarDecl.nodes, children, Expr.nodesOpt_eq, List.flatMap_append,
      Pragma.flatMap_nodes, List.cons_append, List.flatMap_cons, List.append_assoc]
  | varBlock b => simp [nodes, VarBlock.nodes, children, List.flatMap_map]
  | typeDecl d => simp [nodes, TypeDecl.nodes, children, Expr.nodesOpt_eq]
  | decl d =>
    cases d with
    | pou p =>
      cases p <;>
        simp only [nodes, Decl.nodes, Pou.nodes, Method.nodes, children, ofDecl, ofPou,
          flatMap_nodes_ofCode, TypeSpec.nodesOpt_eq, List.flatMap_append, flatMap_nodes_methods]
    | types s ts ps =>
      simp only [nodes, Decl.nodes, children, ofDecl, List.flatMap_append, Pragma.flatMap_nodes]
      simp [List.flatMap_map, nodes]
    | _ => simp [nodes, Decl.nodes, children, ofDecl, Decl.nodesAll_eq]
  | unit u => simp [nodes, children, Decl.nodesAll_eq]

/-! ### Walks with a stack -/

/-- A node is made of its children. -/
def anatomy : Anatomy Node :=
  .ofAll children nodes nodes_eq

/-- A node and everything below it. -/
def walk (n : Node) : List Node :=
  anatomy.walk [n]

theorem walk_eq (n : Node) : n.walk = n.nodes := by
  have all := anatomy.walk_eq nodes_eq [n]
  rwa [List.flatMap_singleton] at all

end Node

end Plc

/-
Syntax trees as documents.

Every node is a record of its kind, its place and its parts, under the names that other programs
know them by.

* `Expr.document`, `Stmt.document`, `TypeSpec.document`, `Decl.document` — the trees;
* `CompilationUnit.document` — a whole unit.
-/
import Plc.Exchange.Document
import Plc.Tree.Decl

namespace Plc

/-- The place of a node. -/
def Span.document (s : Span) : Document :=
  .list [s.start, s.stop]

/-- A node without a kind. -/
def Document.place (span : Span) (fields : List (String × Document)) : Document :=
  .record (("span", span.document) :: fields)

/-- A node. -/
def Document.node (kind : String) (span : Span) (fields : List (String × Document)) : Document :=
  .record (("kind", .text kind) :: ("span", span.document) :: fields)

open Document (node place ofOption ofList ofText? ofTexts ofEntries)

/-! ### Expressions -/

/-- The name of an operator. -/
def BinaryOp.name : BinaryOp → String
  | .add => "ADD" | .sub => "SUB" | .mul => "MUL" | .div => "DIV" | .mod => "MOD"
  | .power => "POWER"
  | .eq => "EQ" | .ne => "NE" | .lt => "LT" | .le => "LE" | .gt => "GT" | .ge => "GE"
  | .and => "AND" | .or => "OR" | .xor => "XOR"

/-- Every operator. -/
def BinaryOp.all : List BinaryOp := [
  .add, .sub, .mul, .div, .mod, .power, .eq, .ne, .lt, .le, .gt, .ge, .and, .or, .xor]

/-- The name of an operator. -/
def UnaryOp.name : UnaryOp → String
  | .neg => "NEG"
  | .not => "NOT"

/-- The kind of a literal and its value. -/
def Literal.Value.document : Literal.Value → String × Document
  | .bool b => ("BOOL", b)
  | .integer n => ("INTEGER", n)
  | .real x => ("REAL", .real x)
  | .string s => ("STRING", s)
  | .wideString s => ("WSTRING", s)
  | .duration n => ("TIME", n)
  | .date s => ("DATE", s)
  | .timeOfDay s => ("TIME_OF_DAY", s)
  | .dateAndTime s => ("DATE_AND_TIME", s)
  | .null => ("NULL", .null)
  | .member s => ("ENUM", s)

/-- The parts of a direct address. -/
def Address.fields (a : Address) : List (String × Document) :=
  [("area", a.area.letter), ("size", a.size.letter), ("byte", a.byte),
    ("bit", ofOption (fun (n : Nat) => (n : Document)) a.bit)]

mutual

/-- A variable. -/
def Variable.document : Variable → Document
  | .named s name style => node "variable_ref" s
    [("name", name), ("local", .flag (style = .blockLocal)), ("quoted", .flag (style = .quoted))]
  | .address s text a => node "direct_address" s (("address", text) :: a.fields)
  | .member s base m => node "member_access" s [("base", base.document), ("member", m)]
  | .element s base indices => node "array_access" s
    [("base", base.document), ("indices", .list (Expr.documents indices))]
  | .deref s base => node "deref" s [("base", base.document)]

/-- An expression. -/
def Expr.document : Expr → Document
  | .literal s l => node "literal" s
    [("literal_kind", l.value.document.1), ("text", l.text), ("value", l.value.document.2),
      ("type_prefix", ofText? l.typeName)]
  | .variable v => v.document
  | .unary s op x => node "unary" s [("op", op.name), ("operand", x.document)]
  | .binary s op l r => node "binary" s
    [("op", op.name), ("left", l.document), ("right", r.document)]
  | .paren s x => node "paren" s [("inner", x.document)]
  | .call s name args => node "function_call" s
    [("name", name), ("args", .list (Arg.documents args))]
  | .repeated s n (some x) => node "repeated_init" s [("count", n), ("value", x.document)]
  | .repeated s n none => node "repeated_init" s [("count", n), ("value", .null)]
  | .arrayInit s es => node "array_init" s [("elements", .list (Expr.documents es))]
  | .structInit s fs => node "struct_init" s [("fields", .list (Arg.documents fs))]

/-- An argument. -/
def Arg.document : Arg → Document
  | .positional s x => node "positional" s [("value", x.document)]
  | .named s name x => node "named" s [("name", name), ("value", x.document)]
  | .output s name v negated => node "output" s
    [("name", name), ("target", v.document), ("negated", negated)]
  | .inferred s => node "inferred" s []

/-- Each expression of a list. -/
def Expr.documents : List Expr → List Document
  | [] => []
  | x :: xs => x.document :: Expr.documents xs

/-- Each argument of a list. -/
def Arg.documents : List Arg → List Document
  | [] => []
  | a :: as => a.document :: Arg.documents as

end

/-- An expression that may be missing. -/
def Expr.document? : Option Expr → Document :=
  ofOption Expr.document

/-! ### Statements -/

/-- A label of a branch. -/
def CaseSelector.document : CaseSelector → Document
  | .value s x => node "value" s [("value", x.document)]
  | .range s low high => node "range" s [("low", low.document), ("high", high.document)]

mutual

/-- A statement. -/
def Stmt.document : Stmt → Document
  | .assignment s target op value => node "assignment" s
    [("target", target.document), ("op", op.mark.symbol), ("value", value.document)]
  | .ifThen s (.mk bs condition body) elsifs otherwise => node "if" s
    [("if_branch", place bs
        [("condition", condition.document), ("body", .list (Stmt.documents body))]),
      ("elsif_branches", .list (IfBranch.documents elsifs)),
      ("else_body", match otherwise with
        | some ss => .list (Stmt.documents ss)
        | none => .null)]
  | .caseOf s selector branches otherwise => node "case" s
    [("selector", selector.document), ("branches", .list (CaseBranch.documents branches)),
      ("else_body", match otherwise with
        | some ss => .list (Stmt.documents ss)
        | none => .null)]
  | .forLoop s control start stop step body => node "for" s
    [("control", control), ("start", start.document), ("end", stop.document),
      ("step", Expr.document? step), ("body", .list (Stmt.documents body))]
  | .whileLoop s condition body => node "while" s
    [("condition", condition.document), ("body", .list (Stmt.documents body))]
  | .repeatLoop s body condition => node "repeat" s
    [("body", .list (Stmt.documents body)), ("until", condition.document)]
  | .exitLoop s => node "exit" s []
  | .nextPass s => node "continue" s []
  | .leave s value => node "return" s [("value", Expr.document? value)]
  | .call s callSpan name args => node "function_call_stmt" s
    [("call", (Expr.call callSpan name args).document)]
  | .invoke s callee args => node "fb_invocation" s
    [("instance", callee.document), ("args", .list (Arg.documents args))]
  | .empty s => node "empty" s []
  | .goto s label => node "goto" s [("label", label)]
  | .label s name => node "label" s [("name", name)]
  | .region s title body => node "region" s
    [("name", title), ("body", .list (Stmt.documents body))]

/-- Each statement of a list. -/
def Stmt.documents : List Stmt → List Document
  | [] => []
  | s :: ss => s.document :: Stmt.documents ss

/-- Each branch of a list. -/
def IfBranch.documents : List IfBranch → List Document
  | [] => []
  | .mk s condition body :: bs =>
    place s [("condition", condition.document), ("body", .list (Stmt.documents body))] ::
      IfBranch.documents bs

/-- Each branch of a list. -/
def CaseBranch.documents : List CaseBranch → List Document
  | [] => []
  | .mk s selectors body :: bs =>
    place s [("selectors", ofList CaseSelector.document selectors),
      ("body", .list (Stmt.documents body))] :: CaseBranch.documents bs

end

/-! ### Types -/

mutual

/-- A type specification. -/
def TypeSpec.document : TypeSpec → Document
  | .elementary s name length => node "elementary" s
    [("name", name), ("length", Expr.document? length)]
  | .array s dims element => node "array" s
    [("dims", ofList (fun d => place d.span
        [("low", d.low.document), ("high", d.high.document)]) dims),
      ("element", element.document)]
  | .struct s fields => node "struct" s [("fields", .list (StructField.documents fields))]
  | .ref s inner => node "ref" s [("inner", inner.document)]
  | .named s name => node "user_defined" s [("name", name)]
  | .enum s members base => node "enum" s
    [("values", ofList (fun m => place m.span
        [("name", m.name), ("value", Expr.document? m.value)]) members),
      ("base_type", ofText? base)]
  | .subrange s base low high => node "subrange" s
    [("base_type", base), ("low", low.document), ("high", high.document)]

/-- Each field of a structure. -/
def StructField.documents : List StructField → List Document
  | [] => []
  | .mk s name type initial :: fs =>
    place s [("name", name), ("type_spec", type.document), ("initial", Expr.document? initial)] ::
      StructField.documents fs

end

/-! ### Declarations -/

/-- The word for keeping values. -/
def Retain.word : Retain → String
  | .unstated => "NONE"
  | .retain => "RETAIN"
  | .nonRetain => "NON_RETAIN"

/-- The word for who may call. -/
def Access.word : Access → String
  | .everyone => "PUBLIC"
  | .owner => "PRIVATE"
  | .descendants => "PROTECTED"
  | .namespaceOnly => "INTERNAL"

/-- An annotation. -/
def Pragma.document (p : Pragma) : Document :=
  place p.span [("text", p.text), ("entries", ofEntries .text p.entries)]

/-- A declared variable. -/
def VarDecl.document (d : VarDecl) : Document :=
  place d.span [("name", d.name), ("type_spec", d.type.document), ("address", ofText? d.address),
    ("initial", Expr.document? d.initial), ("pragmas", ofList Pragma.document d.pragmas)]

/-- A block of variables. -/
def VarBlock.document (b : VarBlock) : Document :=
  place b.span [("var_class", b.kind.keyword.spelling), ("constant", b.constant),
    ("retain", b.retain.word), ("declarations", ofList VarDecl.document b.declarations)]

/-- What every organization unit has, and the given fields. -/
def Code.document (c : Code) (kind : String) (fields : List (String × Document)) : Document :=
  node kind c.span ([("name", .text c.name), ("var_blocks", ofList VarBlock.document c.varBlocks),
    ("body", .list (Stmt.documents c.body)), ("attributes", ofEntries .text c.attributes),
    ("pragmas", ofList Pragma.document c.pragmas)] ++ fields)

/-- A method. -/
def Method.document (m : Method) : Document :=
  m.code.document "method" [("access", ofText? (m.access.map Access.word)), ("final", m.final),
    ("abstract", m.abstract), ("override", m.override),
    ("return_type", ofOption TypeSpec.document m.returnType)]

/-- What a block or class says about others, and its methods. -/
def Inheritance.fields (h : Inheritance) (methods : List Method) : List (String × Document) :=
  [("extends", ofText? h.base), ("implements", ofTexts h.implements), ("final", h.final),
    ("abstract", h.abstract), ("methods", ofList Method.document methods)]

/-- An organization unit. -/
def Pou.document : Pou → Document
  | .function c result => c.document "function" [("return_type", ofOption TypeSpec.document result)]
  | .functionBlock c h methods => c.document "function_block" (h.fields methods)
  | .program c => c.document "program" []
  | .classDecl c h methods => c.document "class" (h.fields methods)
  | .interface c parents methods => c.document "interface"
    [("extends", ofTexts parents), ("methods", ofList Method.document methods)]
  | .method m => m.document
  | .dataBlock c owner => c.document "data_block" [("instance_of", ofText? owner)]
  | .organizationBlock c => c.document "organization_block" []

/-- A named type. -/
def TypeDecl.document (t : TypeDecl) : Document :=
  place t.span [("name", t.name), ("type_spec", t.type.document),
    ("initial", Expr.document? t.initial)]

mutual

/-- A declaration. -/
def Decl.document : Decl → Document
  | .pou p => p.document
  | .types s ts pragmas => node "data_type" s
    [("types", ofList TypeDecl.document ts), ("pragmas", ofList Pragma.document pragmas)]
  | .globals s block => node "global_var" s [("var_block", block.document)]
  | .space s name internal usings ds => node "namespace" s
    [("name", name), ("internal", internal), ("usings", ofTexts usings),
      ("declarations", .list (Decl.documents ds))]

/-- Each declaration of a list. -/
def Decl.documents : List Decl → List Document
  | [] => []
  | d :: ds => d.document :: Decl.documents ds

end

/-- A compilation unit. -/
def CompilationUnit.document (u : CompilationUnit) : Document :=
  place u.span [("declarations", .list (Decl.documents u.topLevel))]

end Plc

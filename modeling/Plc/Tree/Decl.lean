/-
Declarations, with the types and annotations that stand in them.

An annotation `key := value, …` is searched for entries from left to right: a name, `:=`, and a
value, which is a text in quotes or runs up to a comma or semicolon.  What does not fit is passed
over.  When a key comes again, the later value counts.

A compilation unit is a list of declarations: program organization units (`Pou`), blocks of types,
global variables, and namespaces of further declarations.  What all organization units share — a
name, variables, a body — is their `Code`.

* `elementaryNames` — the names of the built-in types;
* `TypeSpec.shortName` — a type specification in a few words;
* `CompilationUnit.declarations` — every declaration, those of namespaces included;
* `CompilationUnit.find?` — the first organization unit of a name.
-/
import Plc.Keyed
import Plc.Text.Blank
import Plc.Text.Letter
import Plc.Tree.Expr
import Plc.Tree.Stmt

namespace Plc

/-- The bounds of one dimension of an array. -/
structure Dimension where
  span : Span
  low : Expr
  high : Expr

/-- A member of an enumeration, with its number if one is given. -/
structure EnumMember where
  span : Span
  name : String
  value : Option Expr

mutual

/-- A type as it is written. -/
inductive TypeSpec where
  /-- A built-in type, a string with its length perhaps. -/
  | elementary (span : Span) (name : String) (length : Option Expr)
  | array (span : Span) (dims : List Dimension) (element : TypeSpec)
  | struct (span : Span) (fields : List StructField)
  | ref (span : Span) (inner : TypeSpec)
  | named (span : Span) (name : String)
  | enum (span : Span) (members : List EnumMember) (base : Option String)
  | subrange (span : Span) (base : String) (low high : Expr)

/-- A field of a structure. -/
inductive StructField where
  | mk (span : Span) (name : String) (type : TypeSpec) (initial : Option Expr)

end

namespace StructField

/-- The place of the field in the text. -/
def span : StructField → Span
  | .mk s _ _ _ => s

/-- The name of the field. -/
def name : StructField → String
  | .mk _ n _ _ => n

/-- The type of the field. -/
def type : StructField → TypeSpec
  | .mk _ _ t _ => t

/-- The initial value of the field. -/
def initial : StructField → Option Expr
  | .mk _ _ _ e => e

end StructField

/-- The names of the built-in types, the generic ones of function signatures included. -/
def elementaryNames : List String := [
  "BOOL", "SINT", "INT", "DINT", "LINT", "USINT", "UINT", "UDINT", "ULINT",
  "BYTE", "WORD", "DWORD", "LWORD", "REAL", "LREAL",
  "TIME", "LTIME", "DATE", "LDATE", "TIME_OF_DAY", "TOD", "LTOD", "DATE_AND_TIME", "DT", "LDT",
  "STRING", "WSTRING", "CHAR", "WCHAR", "VOID",
  "ANY", "ANY_NUM", "ANY_INT", "ANY_REAL", "ANY_BIT", "ANY_STRING", "ANY_DATE",
  "ANY_ELEMENTARY", "ANY_MAGNITUDE"]

namespace TypeSpec

/-- The place of the specification in the text. -/
def span : TypeSpec → Span
  | .elementary s _ _ | .array s _ _ | .struct s _ | .ref s _ | .named s _ | .enum s _ _
  | .subrange s _ _ _ => s

/-- The specification in a few words: bounds, fields and members are left out. -/
def shortName : TypeSpec → String
  | .elementary _ name _ | .named _ name => name
  | .array _ _ element => "ARRAY OF " ++ element.shortName
  | .ref _ inner => "REF_TO " ++ inner.shortName
  | .struct _ _ => "STRUCT"
  | .enum _ _ base => base.getD "ENUM"
  | .subrange _ base _ _ => base

end TypeSpec

end Plc

namespace Plc.Pragma

open Text

/-- The text without the quotes at either end, single or double, however many. -/
def unquote (cs : List Char) : List Char :=
  let isQuote (c : Char) : Bool := c == '\'' || c == '"'
  ((cs.dropWhile isQuote).reverse.dropWhile isQuote).reverse

/-- The text in quotes that a value begins with, quotes included. -/
def quotedValue? (cs : List Char) : Option (List Char) :=
  match cs with
  | q :: cs' =>
    if q == '\'' || q == '"' then
      if cs'.contains q then some (q :: cs'.takeWhile (· != q) ++ [q]) else none
    else none
  | [] => none

/-- The value after `:=` and the number of characters up to its end.  A value that would be empty
takes the last of the blanks before it. -/
def value? (cs : List Char) : Option (List Char × Nat) :=
  let blanks := cs.takeWhile isBlank
  let after := cs.dropWhile isBlank
  match quotedValue? after with
  | some v => some (v, blanks.length + v.length)
  | none =>
    let v := after.takeWhile fun c => c != ',' && c != ';'
    if v.isEmpty then
      if blanks.isEmpty then none else some ([], blanks.length)
    else some (v, blanks.length + v.length)

/-- The entry that a text begins with: its key, its value, and its number of characters. -/
def entry? (cs : List Char) : Option (String × String × Nat) :=
  match cs with
  | c :: _ =>
    if isNameStart c then
      let key := cs.takeWhile isNameChar
      let blanks := (cs.dropWhile isNameChar).takeWhile isBlank
      match (cs.dropWhile isNameChar).dropWhile isBlank with
      | ':' :: '=' :: rest =>
        match value? rest with
        | some (v, n) =>
          some (String.ofList key, String.ofList (unquote (trim v)), key.length + blanks.length + 2 + n)
        | none => none
      | _ => none
    else none
  | [] => none

/-- The entries of a text, in order; the first `skip` characters belong to an entry already
read. -/
def scan : Nat → List Char → List (String × String)
  | _, [] => []
  | skip + 1, _ :: cs => scan skip cs
  | 0, c :: cs =>
    match entry? (c :: cs) with
    | some (key, value, n) => (key, value) :: scan (n - 1) cs
    | none => scan 0 cs

/-- The entries of an annotation, each key once. -/
def entriesOf (text : List Char) : Keyed String :=
  Keyed.ofEntries (scan 0 text)

end Plc.Pragma

namespace Plc

/-- The kinds of variable blocks. -/
inductive VarClass where
  | plain | input | output | inOut | temp | global | external | access | config
  deriving DecidableEq

namespace VarClass

/-- The keyword that opens a block. -/
def keyword : VarClass → Keyword
  | .plain => .VAR
  | .input => .VAR_INPUT
  | .output => .VAR_OUTPUT
  | .inOut => .VAR_IN_OUT
  | .temp => .VAR_TEMP
  | .global => .VAR_GLOBAL
  | .external => .VAR_EXTERNAL
  | .access => .VAR_ACCESS
  | .config => .VAR_CONFIG

/-- The kind of block that a keyword opens. -/
def ofKeyword? : Keyword → Option VarClass
  | .VAR => some .plain
  | .VAR_INPUT => some .input
  | .VAR_OUTPUT => some .output
  | .VAR_IN_OUT => some .inOut
  | .VAR_TEMP => some .temp
  | .VAR_GLOBAL => some .global
  | .VAR_EXTERNAL => some .external
  | .VAR_ACCESS => some .access
  | .VAR_CONFIG => some .config
  | _ => none

theorem ofKeyword?_keyword (c : VarClass) : ofKeyword? c.keyword = some c := by
  cases c <;> rfl

end VarClass

/-- Whether variables keep their values when the power fails. -/
inductive Retain where
  | unstated
  | retain
  | nonRetain
  deriving DecidableEq

/-- Who may call a method. -/
inductive Access where
  | everyone
  | owner
  | descendants
  | namespaceOnly
  deriving DecidableEq

/-- An annotation in braces, and the entries that could be read out of it, each key once. -/
structure Pragma where
  span : Span
  text : String
  entries : List (String × String)

/-- A declared variable. -/
structure VarDecl where
  span : Span
  name : String
  type : TypeSpec
  address : Option String := none
  initial : Option Expr := none
  pragmas : List Pragma := []

/-- A block of variables. -/
structure VarBlock where
  span : Span
  kind : VarClass := .plain
  constant : Bool := false
  retain : Retain := .unstated
  declarations : List VarDecl := []

/-- What every program organization unit has. -/
structure Code where
  span : Span
  name : String
  varBlocks : List VarBlock := []
  body : List Stmt := []
  /-- Block attributes, each key once. -/
  attributes : List (String × String) := []
  pragmas : List Pragma := []

namespace Code

/-- The declared variables, each with its block. -/
def vars (c : Code) : List (VarBlock × VarDecl) :=
  c.varBlocks.flatMap fun block => block.declarations.map fun d => (block, d)

/-- The names of the declared variables. -/
def declaredNames (c : Code) : List String :=
  c.vars.map fun (_, d) => d.name

end Code

/-- What may be said about extending a block or class. -/
structure Inheritance where
  base : Option String := none
  implements : List String := []
  final : Bool := false
  abstract : Bool := false

/-- A method of a block, class or interface. -/
structure Method where
  code : Code
  access : Option Access := none
  final : Bool := false
  abstract : Bool := false
  override : Bool := false
  returnType : Option TypeSpec := none

/-- A program organization unit. -/
inductive Pou where
  | function (code : Code) (returnType : Option TypeSpec)
  | functionBlock (code : Code) (heritage : Inheritance) (methods : List Method)
  | program (code : Code)
  | classDecl (code : Code) (heritage : Inheritance) (methods : List Method)
  | interface (code : Code) (parents : List String) (methods : List Method)
  | method (m : Method)
  | dataBlock (code : Code) (instanceOf : Option String)
  | organizationBlock (code : Code)

namespace Pou

/-- The name, variables and body of the unit. -/
def code : Pou → Code
  | .function c _ | .functionBlock c _ _ | .program c | .classDecl c _ _ | .interface c _ _
  | .dataBlock c _ | .organizationBlock c => c
  | .method m => m.code

/-- The name of the unit. -/
def name (p : Pou) : String := p.code.name

/-- The methods of the unit. -/
def methods : Pou → List Method
  | .functionBlock _ _ ms | .classDecl _ _ ms | .interface _ _ ms => ms
  | _ => []

/-- The type of the unit's result. -/
def returnType? : Pou → Option TypeSpec
  | .function _ t => t
  | .method m => m.returnType
  | _ => none

end Pou

/-- A named type. -/
structure TypeDecl where
  span : Span
  name : String
  type : TypeSpec
  initial : Option Expr

/-- A declaration. -/
inductive Decl where
  | pou (p : Pou)
  | types (span : Span) (types : List TypeDecl) (pragmas : List Pragma)
  | globals (span : Span) (block : VarBlock)
  | space (span : Span) (name : String) (internal : Bool) (usings : List String)
      (declarations : List Decl)

namespace Decl

/-- The place of the declaration in the text. -/
def span : Decl → Span
  | .pou p => p.code.span
  | .types s _ _ | .globals s _ | .space s _ _ _ _ => s

mutual

/-- The declaration and, for a namespace, every declaration in it. -/
def flatten : Decl → List Decl
  | .space s n i us ds => .space s n i us ds :: flattenAll ds
  | d => [d]

/-- Every declaration of a list, those of namespaces included. -/
def flattenAll : List Decl → List Decl
  | [] => []
  | d :: ds => d.flatten ++ flattenAll ds

end

end Decl

/-- The declarations of one text. -/
structure CompilationUnit where
  span : Span
  topLevel : List Decl

namespace CompilationUnit

/-- Every declaration, those of namespaces included. -/
def declarations (u : CompilationUnit) : List Decl :=
  Decl.flattenAll u.topLevel

/-- Every program organization unit. -/
def pous (u : CompilationUnit) : List Pou :=
  u.declarations.filterMap fun
    | .pou p => some p
    | _ => none

/-- The first program organization unit of a name. -/
def find? (u : CompilationUnit) (name : String) : Option Pou :=
  u.pous.find? (·.name == name)

/-- Every named type. -/
def typeDecls (u : CompilationUnit) : List TypeDecl :=
  u.declarations.flatMap fun
    | .types _ ts _ => ts
    | _ => []

end CompilationUnit

end Plc

/-
Names and scopes.

Scopes stand in one list and are never removed from it; each but the first lies inside
an earlier one.  A name means the symbol of the innermost enclosing scope that defines
it.

* `Scopes.define` — adds a symbol to the current scope, unless its name is taken there;
* `Scopes.lookup` — the symbol that a name means;
* `Scopes.unused` — the variables that are never read, or never written.
-/
import Plc.Diagnostic
import Plc.Tree.Decl
import Plc.Types.Ty

namespace Plc

/-- What a name can stand for. -/
inductive SymbolKind where
  | variable
  | parameter
  | output
  | inOut
  | constant
  | function
  | functionBlock
  | program
  | type
  deriving DecidableEq

namespace SymbolKind

/-- The name of the kind. -/
def code : SymbolKind → String
  | .variable => "VARIABLE"
  | .parameter => "PARAMETER"
  | .output => "OUTPUT"
  | .inOut => "IN_OUT"
  | .constant => "CONSTANT"
  | .function => "FUNCTION"
  | .functionBlock => "FUNCTION_BLOCK"
  | .program => "PROGRAM"
  | .type => "TYPE"

/-- Every kind. -/
def all : List SymbolKind := [
  .variable, .parameter, .output, .inOut, .constant, .function, .functionBlock, .program, .type]

/-- The name holds a value, and so may hide another that does. -/
def holdsValue : SymbolKind → Bool
  | .variable | .parameter | .output | .inOut | .constant => true
  | _ => false

/-- The name stands for something that is not a value at all. -/
def isDeclaration : SymbolKind → Bool
  | .functionBlock | .program | .type => true
  | _ => false

end SymbolKind

/-- What is known of a name. -/
structure Symbol where
  name : String
  kind : SymbolKind := .variable
  type : Option Ty := none
  span : Span := Span.zero
  isMutable : Bool := true
  used : Bool := false
  assigned : Bool := false

namespace VarClass

/-- The variables of such a block are written from outside. -/
def isWrittenOutside : VarClass → Bool
  | .input | .inOut | .global | .external | .access | .config => true
  | .plain | .output | .temp => false

/-- What a name declared in such a block stands for. -/
def symbolKind : VarClass → SymbolKind
  | .input => .parameter
  | .output => .output
  | .inOut => .inOut
  | _ => .variable

end VarClass

namespace Symbol

/-- The symbol that a declaration introduces.  A first value, a writer outside, or a type that
needs no first value counts as an assignment. -/
def ofDecl (block : VarBlock) (d : VarDecl) (type : Option Ty) : Symbol :=
  { name := d.name
    kind := if block.constant then .constant else block.kind.symbolKind
    type := type
    span := d.span
    isMutable := !block.constant
    assigned := d.initial.isSome || block.kind.isWrittenOutside || type.any Ty.isAggregate }

/-- The type of the symbol; a symbol without one has the unknown type. -/
def typeOrUnknown (s : Symbol) : Ty :=
  s.type.getD .unknown

/-- A warning for a plain variable that is never read, and one for it if it is never written.
Other symbols are used by those who declare them for others. -/
def unused (s : Symbol) : List Diagnostic :=
  if s.kind = .variable then
    (if s.used then [] else [⟨.unusedVariable s.name, s.span, .warning, none⟩]) ++
    (if s.isMutable && !s.assigned then [⟨.uninitializedVariable s.name, s.span, .warning, none⟩]
      else [])
  else []

end Symbol

/-- A scope: its symbols in the order of their definition, and the scope around it. -/
structure Scope where
  name : String
  parent : Option Nat := none
  symbols : List Symbol := []

namespace Scope

/-- The symbol of a name in the scope itself. -/
def find? (s : Scope) (name : String) : Option Symbol :=
  s.symbols.find? (·.name == name)

/-- The scope with a symbol of a name changed. -/
def modify (s : Scope) (name : String) (f : Symbol → Symbol) : Scope :=
  { s with symbols := s.symbols.map fun x => if x.name == name then f x else x }

end Scope

/-- All scopes, and the place of the current one. -/
structure Scopes where
  list : List Scope := [{ name := "global" }]
  current : Nat := 0

namespace Scopes

/-! ### Moving between scopes -/

/-- Opens a new scope inside the current one. -/
def enter (t : Scopes) (name : String) : Scopes :=
  { list := t.list ++ [{ name, parent := some t.current }], current := t.list.length }

/-- The scope at a place. -/
def scopeAt (t : Scopes) (i : Nat) : Scope :=
  t.list[i]?.getD { name := "" }

/-- The current scope. -/
def scope (t : Scopes) : Scope :=
  t.scopeAt t.current

/-- Goes back to the scope around the current one; the outermost scope is never left. -/
def exit (t : Scopes) : Scopes :=
  { t with current := t.scope.parent.getD t.current }

/-! ### Looking up -/

/-- The places of a scope and of those around it, innermost first, no more than `count` of
them. -/
def enclosing (t : Scopes) : (count : Nat) → Nat → List Nat
  | 0, _ => []
  | count + 1, i =>
    i :: match (t.scopeAt i).parent with
      | some p => t.enclosing count p
      | none => []

/-- The innermost scope that defines a name, from a given scope outwards.  A scope lies inside an
earlier one, so that there are no more around it than there are scopes. -/
def whereFrom? (t : Scopes) (i : Nat) (name : String) : Option Nat :=
  (t.enclosing t.list.length i).find? fun j => ((t.scopeAt j).find? name).isSome

/-- The symbol that a name means in a given scope. -/
def lookupFrom (t : Scopes) (i : Nat) (name : String) : Option Symbol :=
  (t.whereFrom? i name).bind fun j => (t.scopeAt j).find? name

/-- The symbol that a name means in the current scope. -/
def lookup (t : Scopes) (name : String) : Option Symbol :=
  t.lookupFrom t.current name

/-- The current scope itself defines the name. -/
def definesLocally (t : Scopes) (name : String) : Bool :=
  (t.scope.find? name).isSome

/-! ### Changes -/

/-- The scopes with one of them changed. -/
def modifyAt (t : Scopes) (i : Nat) (f : Scope → Scope) : Scopes :=
  { t with list := t.list.modify i f }

/-- Changes the symbol that a name means, if it means one. -/
def mark (t : Scopes) (name : String) (f : Symbol → Symbol) : Scopes :=
  match t.whereFrom? t.current name with
  | some i => t.modifyAt i (·.modify name f)
  | none => t

/-- Notes that the value of a name is read. -/
def markUsed (t : Scopes) (name : String) : Scopes :=
  t.mark name ({ · with used := true })

/-- Notes that the value of a name is written. -/
def markAssigned (t : Scopes) (name : String) : Scopes :=
  t.mark name ({ · with assigned := true })

/-- Adds a symbol to the current scope.  If its name is taken there, nothing is added and the
earlier symbol is pointed out; a value that hides one of an outer scope is added with a hint. -/
def define (t : Scopes) (s : Symbol) : Option Diagnostic × Scopes :=
  match t.scope.find? s.name with
  | some earlier =>
    (some ⟨.duplicateDefinition s.name, s.span, .error, some earlier.span⟩, t)
  | none =>
    let outer := t.scope.parent.bind fun p => t.lookupFrom p s.name
    let hides := outer.filter fun x => s.kind.holdsValue && x.kind.holdsValue
    (hides.map fun x => ⟨.shadowedVariable s.name, s.span, .hint, some x.span⟩,
      t.modifyAt t.current fun c => { c with symbols := c.symbols ++ [s] })

/-- The variables that are never read or never written, scope by scope. -/
def unused (t : Scopes) (withGlobals : Bool := true) : List Diagnostic :=
  (if withGlobals then t.list else t.list.drop 1).flatMap fun s => s.symbols.flatMap Symbol.unused

end Scopes

end Plc

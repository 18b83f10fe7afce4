/-
Expressions.

An expression is a literal, a variable, an operation, a call, or an aggregate that
gives a declaration its initial value.  A `Variable` is what may stand on the left of
an assignment: a name or a direct address, followed by accesses to members,
elements and referents.  Every node carries its span.

* `Variable.root?` — the name at the root of a chain of accesses;
* `Variable.path?` — the dotted name of a chain of member accesses.
-/
import Plc.Token.Basic

namespace Plc

/-- Operators with two operands. -/
inductive BinaryOp where
  | add | sub | mul | div | mod | power
  | eq | ne | lt | le | gt | ge
  | and | or | xor
  deriving DecidableEq

namespace BinaryOp

/-- The operator combines numbers into a number. -/
def isArithmetic : BinaryOp → Bool
  | .add | .sub | .mul | .div | .mod | .power => true
  | _ => false

/-- The operator compares two values. -/
def isComparison : BinaryOp → Bool
  | .eq | .ne | .lt | .le | .gt | .ge => true
  | _ => false

/-- The operator combines truth values or bit strings. -/
def isLogical : BinaryOp → Bool
  | .and | .or | .xor => true
  | _ => false

/-- How tightly the operator binds; the loosest is one. -/
def precedence : BinaryOp → Nat
  | .or => 1
  | .xor => 2
  | .and => 3
  | .eq | .ne | .lt | .le | .gt | .ge => 4
  | .add | .sub => 5
  | .mul | .div | .mod => 6
  | .power => 7

/-- The operator as it is written. -/
def symbol : BinaryOp → String
  | .add => "+" | .sub => "-" | .mul => "*" | .div => "/" | .mod => "MOD" | .power => "**"
  | .eq => "=" | .ne => "<>" | .lt => "<" | .le => "<=" | .gt => ">" | .ge => ">="
  | .and => "AND" | .or => "OR" | .xor => "XOR"

/-- The operator a lexeme stands for. -/
def ofLexeme? : Lexeme → Option BinaryOp
  | .keyword .OR => some .or
  | .keyword .XOR => some .xor
  | .keyword .AND => some .and
  | .keyword .MOD => some .mod
  | .mark .equal => some .eq
  | .mark .notEqual => some .ne
  | .mark .less => some .lt
  | .mark .lessEqual => some .le
  | .mark .greater => some .gt
  | .mark .greaterEqual => some .ge
  | .mark .plus => some .add
  | .mark .minus => some .sub
  | .mark .star => some .mul
  | .mark .slash => some .div
  | .mark .power => some .power
  | _ => none

/-- Every operator falls in exactly one of the three classes. -/
theorem isArithmetic_xor_isComparison_xor_isLogical (op : BinaryOp) :
    (op.isArithmetic ^^ op.isComparison ^^ op.isLogical) = true := by
  cases op <;> rfl

end BinaryOp

/-- Operators with one operand. -/
inductive UnaryOp where
  | neg
  | not
  deriving DecidableEq

/-- The decoded value of a literal; its constructor is the kind of literal. -/
inductive Literal.Value where
  | bool (b : Bool)
  | integer (n : Int)
  | real (x : Float)
  | string (s : String)
  | wideString (s : String)
  | duration (nanoseconds : Int)
  | date (s : String)
  | timeOfDay (s : String)
  | dateAndTime (s : String)
  | null
  /-- A member of an enumeration, written after the name of its type. -/
  | member (name : String)

/-- A constant: what it means, how it is written, and the type named in front of it, if any. -/
structure Literal where
  value : Literal.Value
  text : String
  typeName : Option String := none

/-- How a variable's name is written. -/
inductive NameStyle where
  | plain
  /-- In double quotes. -/
  | quoted
  /-- After a `#`. -/
  | blockLocal
  deriving DecidableEq

mutual

/-- What may stand on the left of an assignment. -/
inductive Variable where
  | named (span : Span) (name : String) (style : NameStyle)
  | address (span : Span) (text : String) (address : Address)
  | member (span : Span) (base : Variable) (member : String)
  | element (span : Span) (base : Variable) (indices : List Expr)
  | deref (span : Span) (base : Variable)

/-- An expression. -/
inductive Expr where
  | literal (span : Span) (literal : Literal)
  | variable (v : Variable)
  | unary (span : Span) (op : UnaryOp) (operand : Expr)
  | binary (span : Span) (op : BinaryOp) (left right : Expr)
  | paren (span : Span) (inner : Expr)
  | call (span : Span) (name : String) (args : List Arg)
  /-- `3(0)` among the elements of an array's initial value. -/
  | repeated (span : Span) (count : Nat) (value : Option Expr)
  /-- The elements of an array's initial value. -/
  | arrayInit (span : Span) (elements : List Expr)
  /-- The fields of a structure's initial value, each a named argument. -/
  | structInit (span : Span) (fields : List Arg)

/-- An argument of a call. -/
inductive Arg where
  | positional (span : Span) (value : Expr)
  | named (span : Span) (name : String) (value : Expr)
  | output (span : Span) (name : String) (target : Variable) (negated : Bool)
  /-- An empty place between commas. -/
  | inferred (span : Span)

end

instance : Inhabited Variable := ⟨.named Span.zero "" .plain⟩

instance : Inhabited Expr := ⟨.variable default⟩

namespace Variable

/-- The place of the variable in the text. -/
def span : Variable → Span
  | .named s _ _ | .address s _ _ | .member s _ _ | .element s _ _ | .deref s _ => s

/-- The same variable at another place. -/
def withSpan (s : Span) : Variable → Variable
  | .named _ n k => .named s n k
  | .address _ t a => .address s t a
  | .member _ b m => .member s b m
  | .element _ b is => .element s b is
  | .deref _ b => .deref s b

/-- The variable without its last access, when it has one. -/
def base? : Variable → Option Variable
  | .named _ _ _ | .address _ _ _ => none
  | .member _ b _ | .element _ b _ | .deref _ b => some b

/-- The name at the root of a chain of accesses; a direct address has none. -/
def root? : Variable → Option String
  | .named _ n _ => some n
  | .address _ _ _ => none
  | .member _ b _ | .element _ b _ | .deref _ b => b.root?

/-- The dotted name of a chain of member accesses; other variables have none. -/
def path? : Variable → Option String
  | .named _ n _ => some n
  | .member _ b m => b.path?.map (· ++ "." ++ m)
  | .address _ _ _ | .element _ _ _ | .deref _ _ => none

theorem root?_isSome_of_path? : ∀ {v : Variable} {p : String}, v.path? = some p →
    v.root?.isSome = true
  | .named _ _ _, _, _ => rfl
  | .member _ b _, _, h => by
    simp only [path?, Option.map_eq_some_iff] at h
    obtain ⟨q, hq, -⟩ := h
    exact root?_isSome_of_path? (v := b) hq
  | .address _ _ _, _, h => by simp [path?] at h
  | .element _ _ _, _, h => by simp [path?] at h
  | .deref _ _, _, h => by simp [path?] at h

end Variable

namespace Expr

/-- The place of the expression in the text. -/
def span : Expr → Span
  | .literal s _ | .unary s _ _ | .binary s _ _ _ | .paren s _ | .call s _ _
  | .repeated s _ _ | .arrayInit s _ | .structInit s _ => s
  | .variable v => v.span

/-- The same expression at another place; its parts stay where they are. -/
def withSpan (s : Span) : Expr → Expr
  | .literal _ l => .literal s l
  | .variable v => .variable (v.withSpan s)
  | .unary _ op x => .unary s op x
  | .binary _ op l r => .binary s op l r
  | .paren _ x => .paren s x
  | .call _ n as => .call s n as
  | .repeated _ n x => .repeated s n x
  | .arrayInit _ es => .arrayInit s es
  | .structInit _ fs => .structInit s fs

@[simp] theorem span_withSpan (s : Span) (e : Expr) : (e.withSpan s).span = s := by
  cases e with
  | «variable» v => cases v <;> rfl
  | _ => rfl

/-- The expression is a variable. -/
def isVariable : Expr → Bool
  | .variable _ => true
  | _ => false

/-- The name at the root, for a variable. -/
def root? : Expr → Option String
  | .variable v => v.root?
  | _ => none

/-- The dotted name, for a variable that is a chain of member accesses. -/
def path? : Expr → Option String
  | .variable v => v.path?
  | _ => none

end Expr

namespace Arg

/-- The place of the argument in the text. -/
def span : Arg → Span
  | .positional s _ | .named s _ _ | .output s _ _ _ | .inferred s => s

/-- The expression of the argument; an empty place has none. -/
def expr? : Arg → Option Expr
  | .positional _ e | .named _ _ e => some e
  | .output _ _ v _ => some (.variable v)
  | .inferred _ => none

end Arg

end Plc

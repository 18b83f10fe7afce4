/-
Types as the checker sees them.

Names are folded (`TIME_OF_DAY` and `LTOD` are one type), bounds of arrays are only counted, and a
name that nothing is known of is a structure without fields.  The unknown type stands for what
could not be found out: every rule accepts it.

* `Ty.ofName` — the type that a name stands for;
* `Ty.accepts` — a value of one type may be stored in a variable of another;
* `accepts_self` — every type accepts itself.
-/
import Plc.Text.Case
import Plc.Tree.Expr

namespace Plc

/-- The types without parts, strings aside. -/
inductive Simple where
  | bool
  | sint | int | dint | lint
  | usint | uint | udint | ulint
  | byte | word | dword | lword
  | real | lreal
  | time | ltime | date | timeOfDay | dateAndTime
  | char | wchar
  | void
  /-- Stands for every type in the signature of a function. -/
  | any
  /-- Could not be found out. -/
  | unknown
  deriving DecidableEq

namespace Simple

/-- The name of the type. -/
def name : Simple → String
  | .bool => "BOOL"
  | .sint => "SINT" | .int => "INT" | .dint => "DINT" | .lint => "LINT"
  | .usint => "USINT" | .uint => "UINT" | .udint => "UDINT" | .ulint => "ULINT"
  | .byte => "BYTE" | .word => "WORD" | .dword => "DWORD" | .lword => "LWORD"
  | .real => "REAL" | .lreal => "LREAL"
  | .time => "TIME" | .ltime => "LTIME" | .date => "DATE" | .timeOfDay => "TOD"
  | .dateAndTime => "DT"
  | .char => "CHAR" | .wchar => "WCHAR"
  | .void => "VOID"
  | .any => "ANY"
  | .unknown => "UNKNOWN"

/-- The types that are named by a word of the language. -/
def written : List Simple := [
  .bool, .sint, .int, .dint, .lint, .usint, .uint, .udint, .ulint, .byte, .word, .dword, .lword,
  .real, .lreal, .time, .ltime, .date, .timeOfDay, .dateAndTime, .char, .wchar, .void]

/-- Other names of types. -/
def aliases : List (String × Simple) := [
  ("TIME_OF_DAY", .timeOfDay), ("LTOD", .timeOfDay), ("LTIME_OF_DAY", .timeOfDay),
  ("DATE_AND_TIME", .dateAndTime), ("LDT", .dateAndTime), ("LDATE_AND_TIME", .dateAndTime),
  ("LDATE", .date)]

/-- The type holds numbers with a sign. -/
def isSigned : Simple → Bool
  | .sint | .int | .dint | .lint => true
  | _ => false

/-- The type holds numbers without a sign. -/
def isUnsigned : Simple → Bool
  | .usint | .uint | .udint | .ulint => true
  | _ => false

/-- The type holds bit strings. -/
def isBitString : Simple → Bool
  | .byte | .word | .dword | .lword => true
  | _ => false

/-- The type holds whole numbers; bit strings count as such. -/
def isInteger (k : Simple) : Bool :=
  k.isSigned || k.isUnsigned || k.isBitString

/-- The type holds floating-point numbers. -/
def isReal : Simple → Bool
  | .real | .lreal => true
  | _ => false

/-- The type holds durations, dates or times. -/
def isTime : Simple → Bool
  | .time | .ltime | .date | .timeOfDay | .dateAndTime => true
  | _ => false

/-- The type holds durations. -/
def isDuration : Simple → Bool
  | .time | .ltime => true
  | _ => false

/-- The type holds single characters. -/
def isCharacter : Simple → Bool
  | .char | .wchar => true
  | _ => false

/-- The type accepts and is accepted by every type. -/
def isOpen : Simple → Bool
  | .any | .unknown => true
  | _ => false

/-- The type as messages show it. -/
def display : Simple → String
  | .unknown => "?"
  | k => k.name

/-- The number of bits of a type of whole numbers. -/
def width : Simple → Nat
  | .sint | .usint | .byte => 8
  | .int | .uint | .word => 16
  | .lint | .ulint | .lword => 64
  | _ => 32

end Simple

/-- The name of a type of texts. -/
def stringName (wide : Bool) : String :=
  if wide then "WSTRING" else "STRING"

/-- The name of a type, or what stands for it when it has none. -/
def nameOr (fallback : String) : Option String → String
  | some "" | none => fallback
  | some n => n

/-- A type given by nothing but a name. -/
inductive NamedType where
  | simple (k : Simple)
  | string (wide : Bool)
  | other (name : String)
  deriving DecidableEq

namespace NamedType

/-- The type that a name stands for; capitals and small letters are the same. -/
def ofName (name : String) : NamedType :=
  let key := Text.upper name
  match Simple.aliases.lookup key with
  | some k => .simple k
  | none =>
    if key == "ANY" || key.startsWith "ANY_" then .simple .any
    else if key == "STRING" then .string false
    else if key == "WSTRING" then .string true
    else
      match Simple.written.find? (·.name == key) with
      | some k => .simple k
      | none => .other name

/-- The type as messages show it. -/
def display : NamedType → String
  | .simple k => k.display
  | .string wide => stringName wide
  | .other name => nameOr "STRUCT" (some name)

end NamedType

/-- A type. -/
inductive Ty where
  | simple (k : Simple)
  | string (wide : Bool) (length : Option Int)
  | array (dims : Nat) (element : Ty)
  /-- Fields are known only of a structure that is declared in the text at hand. -/
  | struct (name : Option String) (fields : List (String × Ty))
  | enum (name : Option String) (members : List String) (base : Option NamedType)
  | subrange (base : NamedType) (low high : Option Int)
  | functionBlock (name : String)
  /-- Without a target it is the type of the null reference. -/
  | pointer (target : Option Ty)

/-- The type itself. -/
def NamedType.toTy : NamedType → Ty
  | .simple k => .simple k
  | .string wide => .string wide none
  | .other name => .struct (some name) []

namespace Ty

instance : Inhabited Ty := ⟨.simple .unknown⟩

/-- The type of what could not be found out. -/
abbrev unknown : Ty := .simple .unknown

/-- The type that a name stands for. -/
def ofName (name : String) : Ty :=
  (NamedType.ofName name).toTy

/-! ### Classes of types -/

/-- The simple type that a type is or restricts to a range. -/
def core? : Ty → Option Simple
  | .simple k | .subrange (.simple k) _ _ => some k
  | _ => none

/-- The simple type that a type is. -/
def simple? : Ty → Option Simple
  | .simple k => some k
  | _ => none

/-- The type holds whole numbers, in a range perhaps. -/
def isInteger (t : Ty) : Bool := t.core?.any Simple.isInteger

/-- The type holds numbers with a sign, in a range perhaps. -/
def isSigned (t : Ty) : Bool := t.core?.any Simple.isSigned

/-- The type holds numbers without a sign, in a range perhaps. -/
def isUnsigned (t : Ty) : Bool := t.core?.any Simple.isUnsigned

/-- The type holds bit strings, in a range perhaps. -/
def isBitString (t : Ty) : Bool := t.core?.any Simple.isBitString

/-- The type holds floating-point numbers, in a range perhaps. -/
def isReal (t : Ty) : Bool := t.core?.any Simple.isReal

/-- The type holds numbers. -/
def isNumeric (t : Ty) : Bool := t.isInteger || t.isReal

/-- The type holds truth values. -/
def isBool (t : Ty) : Bool := t.simple? == some .bool

/-- The type holds durations, dates or times. -/
def isTime (t : Ty) : Bool := t.simple?.any Simple.isTime

/-- The type could not be found out. -/
def isUnknown (t : Ty) : Bool := t.simple? == some .unknown

/-- The type stands for every type. -/
def isAny (t : Ty) : Bool := t.simple? == some .any

/-- The type accepts and is accepted by every type. -/
def isOpen (t : Ty) : Bool := t.simple?.any Simple.isOpen

/-- The type holds texts. -/
def isString : Ty → Bool
  | .string _ _ => true
  | _ => false

/-- The type is an enumeration. -/
def isEnum : Ty → Bool
  | .enum _ _ _ => true
  | _ => false

/-- The type is a range of another. -/
def isSubrange : Ty → Bool
  | .subrange _ _ _ => true
  | _ => false

/-- A new variable of the type needs no first value. -/
def isAggregate : Ty → Bool
  | .functionBlock _ | .struct _ _ | .array _ _ => true
  | _ => false

/-! ### Names -/

/-- The type as messages show it. -/
def display : Ty → String
  | .simple k => k.display
  | .string wide (some n) => stringName wide ++ "[" ++ toString n ++ "]"
  | .string wide none => stringName wide
  | .array dims element => "ARRAY[" ++ toString dims ++ "] OF " ++ element.display
  | .pointer (some target) => "REF_TO " ++ target.display
  | .pointer none => "NULL"
  | .subrange base (some low) (some high) =>
    base.display ++ "(" ++ toString low ++ ".." ++ toString high ++ ")"
  | .subrange base _ _ => base.display
  | .struct name _ => nameOr "STRUCT" name
  | .enum name _ _ => nameOr "ENUM" name
  | .functionBlock name => nameOr "FUNCTION_BLOCK" (some name)

/-! ### Storing values -/

/-- A value of the second of two simple types, or ranges of them, fits the first. -/
def coreAccepts (a b : Simple) : Bool :=
  a.isReal && (b.isInteger || b.isReal) || a.isInteger && b.isInteger

/-- The names do not rule out that two types are the same. -/
def namesAgree (a b : Option String) : Bool :=
  a.isNone || b.isNone || a == b

/-- A value of the second type may be stored in a variable of the first.  Whole numbers fit each
other, and numbers of every kind fit a floating-point number; texts fit each other; what is open
fits and is fitted by all. -/
def accepts : Ty → Ty → Bool
  | .array n a, .array m b => n == m && a.accepts b
  | .pointer (some a), .pointer (some b) => a.accepts b
  | .pointer _, .pointer _ => true
  | .struct a _, .struct b _ => namesAgree a b
  | .functionBlock a, .functionBlock b => a == b
  | .string _ _, .string _ _ => true
  | .enum _ _ _, .enum _ _ _ => true
  | .enum _ _ base, b => b.isOpen || b.isInteger && base.isSome
  | .simple a, .simple b =>
    a == b || a.isOpen || b.isOpen || coreAccepts a b || a.isDuration && b.isDuration
  | .simple a, .subrange (.simple b) _ _ => a.isOpen || coreAccepts a b
  | .simple a, .string _ _ => a.isOpen || a.isCharacter
  | .simple a, _ => a.isOpen
  | .subrange a l h, .subrange b l' h' =>
    a == b && l == l' && h == h' ||
      match a, b with
      | .simple a, .simple b => coreAccepts a b
      | _, _ => false
  | .subrange (.simple a) _ _, .simple b => b.isOpen || coreAccepts a b
  | _, b => b.isOpen

/-- Every type accepts itself. -/
theorem accepts_self : ∀ t : Ty, t.accepts t = true
  | .simple _ => by simp [accepts]
  | .string _ _ => rfl
  | .array _ e => by simp [accepts, accepts_self e]
  | .struct _ _ => by simp [accepts, namesAgree]
  | .enum _ _ _ => rfl
  | .subrange _ _ _ => by simp [accepts]
  | .functionBlock _ => by simp [accepts]
  | .pointer (some t) => by simp [accepts, accepts_self t]
  | .pointer none => rfl

/-- Two values can be compared. -/
def comparable (a b : Ty) : Bool :=
  if a.isNumeric && b.isNumeric then true
  else if a.isEnum || b.isEnum then
    let other := if a.isEnum then b else a
    other.isEnum || other.isInteger
  else a.accepts b || b.accepts a

/-- The wider of two types of whole numbers, the first if they are as wide. -/
def widened (a b : Ty) : Ty :=
  if a.isSubrange && b.isSubrange then a
  else
    let width (t : Ty) : Nat := ((t.core?).map Simple.width).getD 32
    if width b ≤ width a then a else b

end Ty

end Plc

/-
Variables and types of a project.

A variable carries its own role, so that a list of variables means the same outside of the
interface that it comes from.  Members and elements have types that are known by name, never
definitions inside of definitions.

* `Variable.size` — how many elements a variable has;
* `Bounds.ofInts` — the bounds of a dimension, unless the dimension would be empty;
* `DataType.references` — the names of the types that a type is built from.
-/
import Plc.Tree.Decl

namespace Plc

/-- The name of the role that variables of a block have. -/
def VarClass.role : VarClass → String
  | .plain => "LOCAL"
  | .input => "INPUT"
  | .output => "OUTPUT"
  | .inOut => "IN_OUT"
  | .temp => "TEMP"
  | .global => "GLOBAL"
  | .external => "EXTERNAL"
  | .access => "ACCESS"
  | .config => "CONFIG"

/-- Every kind of block. -/
def VarClass.all : List VarClass := [
  .plain, .input, .output, .inOut, .temp, .global, .external, .access, .config]

namespace Model

/-- A named data element. -/
structure Variable where
  name : String
  /-- The name of the type, of the elements if there are several. -/
  type : String
  role : VarClass := .plain
  initial : Option String := none
  description : Option String := none
  address : Option String := none
  /-- The number of elements along each dimension; a single value has no dimensions. -/
  dimensions : List Int := []
  constant : Bool := false
  retain : Bool := false

namespace Variable

/-- The variable has dimensions. -/
def isArray (v : Variable) : Bool :=
  !v.dimensions.isEmpty

/-- How many elements the variable has. -/
def size (v : Variable) : Int :=
  v.dimensions.foldl (· * ·) 1

theorem size_of_not_isArray {v : Variable} (h : v.isArray = false) : v.size = 1 := by
  have : v.dimensions = [] := by simpa [isArray] using h
  simp [size, this]

end Variable

end Model

end Plc

namespace Plc.Model

/-- The first and the last index of a dimension. -/
structure Bounds where
  lower : Int
  upper : Int
  lower_le_upper : lower ≤ upper

namespace Bounds

instance : Inhabited Bounds := ⟨⟨0, 0, Int.le_refl 0⟩⟩

/-- What is said of bounds that leave nothing between them. -/
def refusal (lower upper : Int) : String :=
  "array dimension " ++ toString lower ++ ".." ++ toString upper ++ " is empty"

/-- The bounds, unless there is nothing between them. -/
def ofInts (lower upper : Int) : Except String Bounds :=
  if h : lower ≤ upper then .ok ⟨lower, upper, h⟩ else .error (refusal lower upper)

/-- The bounds of a number of elements counted from zero. -/
def fromZero (size : Int) : Except String Bounds :=
  ofInts 0 (size - 1)

/-- The bounds of a number of elements counted from one. -/
def fromOne (size : Int) : Except String Bounds :=
  ofInts 1 size

/-- The number of indices. -/
def size (b : Bounds) : Int :=
  b.upper - b.lower + 1

theorem size_pos (b : Bounds) : 0 < b.size := by
  have := b.lower_le_upper
  simp only [size]
  omega

theorem size_of_fromZero {n : Int} {b : Bounds} (h : fromZero n = .ok b) : b.size = n := by
  unfold fromZero ofInts at h
  split at h
  · cases h
    simp only [size]
    omega
  · cases h

end Bounds

/-- A member of a structure. -/
structure StructMember where
  name : String
  type : String
  initial : Option String := none
  description : Option String := none
  dimensions : List Int := []

/-- A member of an enumeration. -/
structure EnumMember where
  name : String
  value : Option Int := none
  description : Option String := none

/-- What a type is. -/
inductive Definition where
  | alias (target : String)
  | struct (members : List StructMember)
  | enum (base : Option String) (members : List EnumMember)
  | array (element : String) (dimensions : List Bounds)
  | subrange (base : String) (lower upper : Int)

/-- A named type. -/
structure DataType where
  name : String
  description : Option String := none
  definition : Definition

/-- The names of the types that the type is built from; an empty name counts as none. -/
def DataType.references (t : DataType) : List String :=
  match t.definition with
  | .alias target => [target]
  | .struct members => members.map StructMember.type
  | .array element _ => [element]
  | .subrange base _ _ => [base]
  | .enum base _ => base.toList.filter (!·.isEmpty)

end Plc.Model

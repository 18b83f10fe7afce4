/-
The dimensions that a project keeps of what a unit declares.

A project knows a variable, a member of a structure and an array type by the numbers of elements along
its dimensions.  A dimension whose bounds are no whole numbers, or the wrong way round, has no such
number and is left out; so an array keeps its rank just where each of its dimensions has a size, and
becomes a single value where none has.

* `Dimension.size?`, `TypeSpec.sizes` — the sizes that can be read off a type;
* `CompilationUnit.declared` — everything a unit declares that has dimensions in the project;
* `Model.Project.shapes` — the dimensions in the project;
* `Model.shapes_ofUnit` — the ones are those of the other.
-/
import Mathlib.Data.List.Perm.Basic
import Plc.Model.Conversion
import Plc.Reading
import Plc.Proofs.Fallible

namespace Plc

/-! ### What is declared -/

/-- Both bounds are whole numbers, negated or in parentheses perhaps, and in the right order. -/
def Dimension.Sized (d : Dimension) : Prop :=
  ∃ low high, d.low.wholeNumber? = some low ∧ d.high.wholeNumber? = some high ∧ low ≤ high

/-- The number of elements along a dimension, if both bounds are whole numbers in the right order. -/
def Dimension.size? (d : Dimension) : Option Int :=
  match d.low.wholeNumber?, d.high.wholeNumber? with
  | some low, some high => if low ≤ high then some (high - low + 1) else none
  | _, _ => none

/-- The number of dimensions that an array is declared with. -/
def TypeSpec.rank : TypeSpec → Nat
  | .array _ dims _ => dims.length
  | _ => 0

/-- The sizes of the dimensions of an array that have one. -/
def TypeSpec.sizes : TypeSpec → List Int
  | .array _ dims _ => dims.filterMap Dimension.size?
  | _ => []

/-- A name and the type that it is declared with. -/
abbrev Declared := String × TypeSpec

/-- The declared variables of a unit. -/
def Code.declared (c : Code) : List Declared :=
  c.vars.map fun (_, d) => (d.name, d.type)

/-- A named type has dimensions itself if it is an array, and its fields have if it is a structure. -/
def TypeDecl.declared (t : TypeDecl) : List Declared :=
  match t.type with
  | .struct _ fields => fields.map fun f => (f.name, f.type)
  | .array .. => [(t.name, t.type)]
  | _ => []

/-- What a declaration declares that a project knows the dimensions of.  A block of data is a variable,
and declares further ones if it has a structure of its own. -/
def Decl.declared : Decl → List Declared
  | .pou (.program c) | .pou (.organizationBlock c) | .pou (.function c _) => c.declared
  | .pou (.functionBlock c _ methods) | .pou (.classDecl c _ methods) =>
    c.declared ++ methods.flatMap fun m => m.code.declared
  | .pou (.dataBlock c none) => (c.name, .named c.span c.name) :: c.declared
  | .pou (.dataBlock c (some owner)) => [(c.name, .named c.span owner)]
  | .globals _ block => block.declarations.map fun d => (d.name, d.type)
  | .types _ ts _ => ts.flatMap TypeDecl.declared
  | _ => []

/-- What a unit declares that a project knows the dimensions of. -/
def CompilationUnit.declared (u : CompilationUnit) : List Declared :=
  u.declarations.flatMap Decl.declared

/-! ### Sizes and ranks -/

theorem Dimension.isSome_size?_iff (d : Dimension) : d.size?.isSome ↔ d.Sized := by
  unfold size? Sized
  cases d.low.wholeNumber? with
  | none => simp
  | some low =>
    cases d.high.wholeNumber? with
    | none => simp
    | some high => simp [apply_ite Option.isSome]

namespace TypeSpec

variable {span : Span} {dims : List Dimension} {element : TypeSpec}

/-- An array keeps its rank just where each dimension has a size. -/
theorem length_sizes_eq_iff : (array span dims element).sizes.length = (array span dims element).rank ↔
    ∀ d ∈ dims, d.Sized := by
  rw [sizes, rank, List.length_filterMap_eq_countP, List.countP_eq_length]
  simp only [Dimension.isSome_size?_iff]

/-- An array becomes a single value just where no dimension has a size. -/
theorem sizes_eq_nil_iff : (array span dims element).sizes = [] ↔ ∀ d ∈ dims, ¬d.Sized := by
  rw [sizes, List.filterMap_eq_nil_iff]
  simp only [← Dimension.isSome_size?_iff, Bool.not_eq_true, Option.isSome_eq_false_iff,
    Option.isNone_iff_eq_none]

end TypeSpec

/-! ### What a project knows -/

namespace Model

/-- A name and the numbers of elements along its dimensions. -/
abbrev Shape := String × List Int

/-- The shape of a variable. -/
def Variable.shape (v : Variable) : Shape := (v.name, v.dimensions)

/-- The shapes in a type: of an array itself, and of the members of a structure. -/
def DataType.shapes (t : DataType) : List Shape :=
  match t.definition with
  | .struct members => members.map fun m => (m.name, m.dimensions)
  | .array _ dims => [(t.name, dims.map Bounds.size)]
  | _ => []

/-- The shapes in a project: of the variables of its units, of its global variables, and in its types. -/
def Project.shapes (p : Project) : List Shape :=
  p.pous.flatMap (fun x => x.vars.map Variable.shape) ++ p.globals.map Variable.shape ++
    p.dataTypes.flatMap DataType.shapes

/-- The shape that a declaration asks for. -/
def shapeOf (x : Declared) : Shape := (x.1, x.2.sizes)

/-! ### From declarations to shapes -/

theorem map_size_ofDimension? (d : Dimension) :
    (Bounds.ofDimension? d).map Bounds.size = d.size? := by
  unfold Bounds.ofDimension? Dimension.size?
  cases d.low.wholeNumber? with
  | none => rfl
  | some low =>
    cases d.high.wholeNumber? with
    | none => rfl
    | some high =>
      dsimp only
      unfold Bounds.ofInts
      split
      · rfl
      · rfl

theorem map_size_filterMap (dims : List Dimension) :
    (dims.filterMap Bounds.ofDimension?).map Bounds.size = dims.filterMap Dimension.size? := by
  rw [List.map_filterMap]
  exact congrArg (dims.filterMap ·) (funext map_size_ofDimension?)

theorem typeAndSizes_snd (t : TypeSpec) : (typeAndSizes t).2 = t.sizes := by
  cases t with
  | array _ dims _ => exact map_size_filterMap dims
  | _ => rfl

theorem shape_ofDecl (block : VarBlock) (d : VarDecl) :
    (Variable.ofDecl block d).shape = shapeOf (d.name, d.type) :=
  congrArg (d.name, ·) (typeAndSizes_snd d.type)

/-! ### Interfaces -/

/-- A variable goes into one part of an interface. -/
theorem Interface.vars_add_perm (i : Interface) (v : Variable) :
    (i.add v).vars.Perm (i.vars ++ [v]) := by
  classical
  refine List.perm_iff_count.2 fun x => ?_
  unfold Interface.add Interface.vars
  -- each of the parts ends with the new variable in one of the cases
  split <;> simp only [List.count_append] <;> omega

/-- Variables change their order in an interface, and nothing else. -/
theorem Interface.vars_foldl_perm (vs : List Variable) (i : Interface) :
    (vs.foldl Interface.add i).vars.Perm (i.vars ++ vs) := by
  induction vs generalizing i with
  | nil => rw [List.foldl_nil, List.append_nil]
  | cons v vs ih =>
    rw [List.foldl_cons, List.append_cons]
    exact (ih (i.add v)).trans ((i.vars_add_perm v).append_right vs)

theorem Interface.shapes_ofCode (c : Code) (returnType : Option TypeSpec) :
    ((Interface.ofCode c returnType).vars.map Variable.shape).Perm (c.declared.map shapeOf) := by
  have same : (c.vars.map fun (block, d) => Variable.ofDecl block d).map Variable.shape =
      c.declared.map shapeOf := by
    rw [Code.declared, List.map_map, List.map_map]
    exact List.map_congr_left fun x _ => shape_ofDecl x.1 x.2
  rw [← same]
  exact (Interface.vars_foldl_perm _ _).map _

/-! ### Declarations -/

/-- The shapes of the units that a declaration becomes, of its global variables, and in its types. -/
def shapesOfDecl (d : Decl) : List Shape :=
  (Pou.ofDecl d).flatMap (fun x => x.vars.map Variable.shape) ++
    ((Variable.globalsOfDecl d).map Variable.shape ++ (DataType.ofDecl d).flatMap DataType.shapes)

theorem shapes_ofMethods (owner : String) (methods : List Method) :
    ((Pou.ofMethods owner methods).flatMap fun x => x.vars.map Variable.shape).Perm
      ((methods.flatMap fun m => m.code.declared).map shapeOf) := by
  unfold Pou.ofMethods
  rw [List.flatMap_map, List.map_flatMap]
  exact List.Perm.flatMap_left _ fun m _ => Interface.shapes_ofCode m.code m.returnType

theorem DataType.shapes_ofSpec (t : TypeDecl) :
    DataType.shapes { name := t.name, definition := .ofSpec t.type } = t.declared.map shapeOf := by
  unfold TypeDecl.declared
  cases t.type with
  | struct _ fields =>
    show (fields.map StructMember.ofField).map _ = (fields.map _).map _
    rw [List.map_map, List.map_map]
    exact List.map_congr_left fun f _ => congrArg (f.name, ·) (typeAndSizes_snd f.type)
  | array _ dims _ => exact congrArg (fun sizes => [(t.name, sizes)]) (map_size_filterMap dims)
  | subrange _ _ low high =>
    unfold Definition.ofSpec
    dsimp only
    split <;> rfl
  | _ => rfl

theorem DataType.shapes_ofDataBlock (c : Code) :
    (DataType.ofDataBlock c).shapes.Perm (c.declared.map shapeOf) := by
  have same : (DataType.ofDataBlock c).shapes = (Interface.ofCode c none).vars.map Variable.shape :=
    List.map_map
  rw [same]
  exact Interface.shapes_ofCode c none

theorem shapes_ofDecl (d : Decl) : (shapesOfDecl d).Perm (d.declared.map shapeOf) := by
  have unit (n : String) (kind : PouKind) (c : Code) (t : Option TypeSpec) :
      ((Pou.ofCode n kind c t).vars.map Variable.shape).Perm (c.declared.map shapeOf) :=
    Interface.shapes_ofCode c t
  unfold shapesOfDecl
  -- A declaration fills one of three lists, so the other two are empty.
  cases d with
  | pou p =>
    cases p with
    | program c | organizationBlock c | function c t =>
      show (([_] : List Pou).flatMap _ ++ ([] ++ [])).Perm _
      rw [List.flatMap_singleton, List.append_nil, List.append_nil]
      exact unit ..
    -- The methods are units of their own, behind their owner.
    | functionBlock c _ methods | classDecl c _ methods =>
      show ((_ :: Pou.ofMethods c.name methods).flatMap _ ++ ([] ++ [])).Perm _
      rw [List.flatMap_cons, List.append_nil, List.append_nil, Decl.declared, List.map_append]
      exact (unit ..).append (shapes_ofMethods c.name methods)
    | dataBlock c owner =>
      cases owner with
      | none =>
        show ((c.name, []) :: [DataType.ofDataBlock c].flatMap DataType.shapes).Perm _
        rw [List.flatMap_singleton]
        exact (DataType.shapes_ofDataBlock c).cons _
      | some owner => exact .refl _
    | interface _ _ _ => exact .refl _
    | method _ => exact .refl _
  | types _ ts _ =>
    show ([] ++ ([] ++ _)).Perm _
    rw [List.nil_append, List.nil_append, Decl.declared, DataType.ofDecl, List.flatMap_map,
      List.map_flatMap]
    exact List.Perm.flatMap_left _ fun t _ => .of_eq (DataType.shapes_ofSpec t)
  | globals _ block =>
    show ([] ++ (_ ++ [])).Perm _
    rw [List.nil_append, List.append_nil, Decl.declared, Variable.globalsOfDecl, List.map_map,
      List.map_map]
    exact .of_eq (List.map_congr_left fun d _ => shape_ofDecl block d)
  | space _ _ _ _ _ => exact .refl _

/-! ### Units -/

theorem globals_ofUnit (u : CompilationUnit) (name : String) (dialect : Dialect) :
    (Project.ofUnit u name dialect).globals = u.declarations.flatMap Variable.globalsOfDecl := by
  unfold Project.globals Project.resources Project.ofUnit Configuration.ofGlobals
  dsimp only
  split
  case isTrue none => exact (List.isEmpty_iff.1 none).symm
  case isFalse => exact List.append_nil _

/-- The variables, members and array types of the project of a unit have just the dimensions with a size
that they are declared with.  An array has all of them if each has a size, and none is left if none has. -/
theorem shapes_ofUnit (u : CompilationUnit) (name : String) (dialect : Dialect) :
    (Project.ofUnit u name dialect).shapes.Perm (u.declared.map shapeOf) ∧
      ∀ span dims element, let t := TypeSpec.array span dims element
        (t.sizes.length = t.rank ↔ ∀ d ∈ dims, d.Sized) ∧
          (t.sizes = [] ↔ ∀ d ∈ dims, ¬d.Sized) := by
  refine ⟨?_, fun _ _ _ => ⟨TypeSpec.length_sizes_eq_iff, TypeSpec.sizes_eq_nil_iff⟩⟩
  -- the three parts of a project are put together for each declaration
  have byDecl : (Project.ofUnit u name dialect).shapes.Perm (u.declarations.flatMap shapesOfDecl) := by
    unfold Project.shapes
    rw [globals_ofUnit, List.append_assoc, List.map_flatMap]
    show ((u.declarations.flatMap Pou.ofDecl).flatMap _ ++
      (_ ++ (u.declarations.flatMap DataType.ofDecl).flatMap _)).Perm _
    rw [List.flatMap_assoc, List.flatMap_assoc]
    exact ((List.flatMap_append_perm ..).append_left _).trans (List.flatMap_append_perm ..)
  rw [CompilationUnit.declared, List.map_flatMap]
  exact byDecl.trans (List.Perm.flatMap_left _ fun d _ => shapes_ofDecl d)

/-- A program with arrays of two dimensions and of one, each with a sum as a bound. -/
def summedArrays : Reading where
  source := ("PROGRAM P VAR m : ARRAY[1..3, 1..2+2] OF INT; s : ARRAY[0..2*4] OF INT; END_VAR " ++
    "END_PROGRAM").toList

/-- A sum as a bound takes a dimension from one array, and makes the other one a single value. -/
theorem shapes_ofUnit_sum : ∃ u, summedArrays.unit = .ok u ∧
    u.declared.map (fun x => (x.1, x.2.rank)) = [("m", 2), ("s", 1)] ∧
    (Project.ofUnit u "Project" .generic).shapes = [("m", [3]), ("s", [])] := by
  have read : summedArrays.unit.toOption.map (fun u => (u.declared.map fun x => (x.1, x.2.rank),
      (Project.ofUnit u "Project" .generic).shapes)) =
      some ([("m", 2), ("s", 1)], [("m", [3]), ("s", [])]) := by decide +kernel
  obtain ⟨u, h, same⟩ := ok_of_map read
  exact ⟨u, h, Prod.mk.inj same⟩

end Model

end Plc

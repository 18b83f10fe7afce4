/-
Projects.

A project holds organization units, types, and a configuration with tasks and global variables.
It is the same whatever dialect or format it comes from.

* `Trigger.ofParts` — when a task runs, unless what is given does not fit together;
* `Project.globals` — the global variables of all resources;
* `Stats.ofProject` — how much there is of everything.
-/
import Plc.Keyed
import Plc.Model.Body
import Plc.Model.DataType

namespace Plc.Model

/-! ### Organization units -/

/-- The kinds of organization units. -/
inductive PouKind where
  | program
  | functionBlock
  | function
  deriving DecidableEq

namespace PouKind

/-- The name of the kind. -/
def code : PouKind → String
  | .program => "PROGRAM"
  | .functionBlock => "FUNCTION_BLOCK"
  | .function => "FUNCTION"

/-- Every kind. -/
def all : List PouKind := [.program, .functionBlock, .function]

end PouKind

/-- The variables of an organization unit, one list for each part of the interface. -/
structure Interface where
  inputs : List Variable := []
  outputs : List Variable := []
  inOuts : List Variable := []
  locals : List Variable := []
  temps : List Variable := []
  externals : List Variable := []
  returnType : Option String := none

namespace Interface

/-- All variables. -/
def vars (i : Interface) : List Variable :=
  i.inputs ++ i.outputs ++ i.inOuts ++ i.locals ++ i.temps ++ i.externals

/-- The interface with one more variable, in the part that its role belongs to. -/
def add (i : Interface) (v : Variable) : Interface :=
  match v.role with
  | .input => { i with inputs := i.inputs ++ [v] }
  | .output => { i with outputs := i.outputs ++ [v] }
  | .inOut => { i with inOuts := i.inOuts ++ [v] }
  | .temp => { i with temps := i.temps ++ [v] }
  | .external => { i with externals := i.externals ++ [v] }
  | _ => { i with locals := i.locals ++ [v] }

theorem mem_vars_add {i : Interface} {v w : Variable} :
    w ∈ (i.add v).vars ↔ w = v ∨ w ∈ i.vars := by
  unfold add vars
  split <;> simp only [List.mem_append, List.mem_singleton] <;> grind

end Interface

/-- An organization unit. -/
structure Pou where
  name : String
  kind : PouKind
  description : Option String := none
  interface : Interface := {}
  body : Option Body := none

namespace Pou

/-- The variables of the interface. -/
def vars (p : Pou) : List Variable :=
  p.interface.vars

/-- The unit has no code. -/
def isEmpty (p : Pou) : Bool :=
  p.body.all Body.isEmpty

end Pou

/-! ### Configurations -/

/-- When a task runs; an event and a period may be given beside what is needed. -/
inductive Trigger where
  | continuous (event : Option String)
  | periodic (milliseconds : Int) (event : Option String)
  | event (tag : String) (milliseconds : Option Int)

namespace Trigger

instance : Inhabited Trigger := ⟨.continuous none⟩

/-- The name of the kind of trigger. -/
def code : Trigger → String
  | .continuous _ => "CONTINUOUS"
  | .periodic _ _ => "PERIODIC"
  | .event _ _ => "EVENT"

/-- The period, if there is one. -/
def period? : Trigger → Option Int
  | .continuous _ => none
  | .periodic n _ => some n
  | .event _ n => n

/-- The tag of the event, if there is one. -/
def tag? : Trigger → Option String
  | .continuous t | .periodic _ t => t
  | .event t _ => some t

/-- The trigger of a kind with what is given for it. -/
def ofParts (code : String) (period : Option Int) (tag : Option String) : Except String Trigger :=
  match code, period, tag with
  | "PERIODIC", some n, t => .ok (.periodic n t)
  | "PERIODIC", none, _ => .error "PERIODIC task requires 'period_ms'"
  | "EVENT", n, some t => .ok (.event t n)
  | "EVENT", _, none => .error "EVENT task requires 'trigger_tag'"
  | _, none, t => .ok (.continuous t)
  | _, some _, _ => .error "CONTINUOUS task must not have 'period_ms'"

theorem ofParts_parts (t : Trigger) : ofParts t.code t.period? t.tag? = .ok t := by
  cases t <;> rfl

end Trigger

/-- A task. -/
structure Task where
  name : String
  trigger : Trigger := default
  priority : Int := 10
  watchdog : Option Int := none
  programs : List String := []

/-- What runs tasks and holds global variables. -/
structure Resource where
  name : String
  tasks : List Task := []
  globals : List Variable := []

/-- The resources of a project. -/
structure Configuration where
  name : String
  resources : List Resource := []

/-! ### Projects -/

/-- A project.  Its format says in what dialect its text is written. -/
structure Project where
  name : String
  description : Option String := none
  dataTypes : List DataType := []
  pous : List Pou := []
  configuration : Option Configuration := none
  format : Option String := none

namespace Project

/-- The first organization unit of a name. -/
def pou? (p : Project) (name : String) : Option Pou :=
  p.pous.find? (·.name == name)

/-- The first type of a name. -/
def dataType? (p : Project) (name : String) : Option DataType :=
  p.dataTypes.find? (·.name == name)

/-- The organization units of a kind. -/
def pousOf (p : Project) (kind : PouKind) : List Pou :=
  p.pous.filter (·.kind == kind)

/-- The resources of the configuration. -/
def resources (p : Project) : List Resource :=
  p.configuration.elim [] Configuration.resources

/-- The global variables of all resources. -/
def globals (p : Project) : List Variable :=
  p.resources.flatMap Resource.globals

end Project

/-! ### How much there is -/

/-- How much there is of everything in a project. -/
structure Stats where
  programs : Nat
  functionBlocks : Nat
  functions : Nat
  pous : Nat
  emptyPous : Nat
  dataTypes : Nat
  globals : Nat
  vars : Nat
  tasks : Nat
  /-- How many bodies there are in each language. -/
  bodies : Keyed Nat

/-- How much there is of everything in a project. -/
def Stats.ofProject (p : Project) : Stats where
  programs := (p.pousOf .program).length
  functionBlocks := (p.pousOf .functionBlock).length
  functions := (p.pousOf .function).length
  pous := p.pous.length
  emptyPous := (p.pous.filter Pou.isEmpty).length
  dataTypes := p.dataTypes.length
  globals := p.globals.length
  vars := (p.pous.flatMap Pou.vars).length
  tasks := (p.resources.flatMap Resource.tasks).length
  bodies := Keyed.tally (p.pous.filterMap fun x => x.body.map Body.language)

theorem Stats.pous_eq_sum (p : Project) :
    (Stats.ofProject p).pous = (Stats.ofProject p).programs + (Stats.ofProject p).functionBlocks +
      (Stats.ofProject p).functions := by
  simp only [Stats.ofProject, Project.pousOf]
  induction p.pous with
  | nil => rfl
  | cons x xs ih =>
    cases h : x.kind <;> simp [h] <;> omega

end Plc.Model

/-
The cross-reference of a project, and the smells that it shows.

It says which tags, organization units and types are used, and where.  Names are used by the code
of organization units, types also by declarations, and a function block is used by every variable
that is an instance of it.

The smells need more than one organization unit to be seen: variables that are declared in one place
and used in none, names that are used without any declaration, organization units without code,
and functions and function blocks that nothing calls.

* `CrossReference.ofProject` — the cross-reference;
* `CrossReference.unusedTags`, `CrossReference.undefinedTags`, `CrossReference.unusedPous` — what is
  on one side only;
* `mem_unusedTags_iff`, `mem_undefinedTags_iff` — which names those are;
* `Smell.ofProject` — the smells of a project, in the order of the rules;
* `Smell.message` — a smell in words.
-/
import Plc.Diagnostic
import Plc.Model.Mention
import Plc.Model.Project
import Plc.Text.Blank
import Plc.Text.Case
import Plc.Text.Glob

namespace Plc.Model

/-- The dialect that text of a format is written in. -/
def dialectOf (format : Option String) : Dialect :=
  match format with
  | some "scl" => .scl
  | some "rockwell" | some "l5x" => .rockwell
  | _ => .generic

/-- What text in the body of an organization unit is to be read with. -/
def Pou.surroundings (p : Pou) (dialect : Dialect) : Surroundings where
  pou := p.name
  vars := p.vars.map Variable.name
  result := if p.kind = .function then (p.name.splitOn ".").getLast? else none
  dialect := dialect

/-- What the code of an organization unit mentions. -/
def Pou.mentions (p : Pou) (dialect : Dialect) : Except Fault (List Mention) :=
  match p.body with
  | some body => body.mentions (p.surroundings dialect)
  | none => .ok []

/-- What is used in a project, and what is defined. -/
structure CrossReference where
  project : Project
  /-- What the code mentions, in its order. -/
  mentions : List Mention

namespace CrossReference

/-- The cross-reference of a project. -/
def ofProject (p : Project) : Except Fault CrossReference := do
  let found ← p.pous.mapM (Pou.mentions · (dialectOf p.format))
  return { project := p, mentions := found.flatten }

/-- The references to tags, in the order of the code. -/
def references (x : CrossReference) : List Reference :=
  x.mentions.filterMap Mention.reference?

/-- The references to a tag. -/
def referencesTo (x : CrossReference) (tag : String) : List Reference :=
  x.references.filter (·.tag == tag)

/-- All declared variables, global ones last. -/
def declared (x : CrossReference) : List Variable :=
  x.project.pous.flatMap Pou.vars ++ x.project.globals

/-- The tags that code mentions. -/
def usedTags (x : CrossReference) : List String :=
  x.references.map Reference.tag

/-- The tags that are declared. -/
def definedTags (x : CrossReference) : List String :=
  x.declared.map Variable.name

/-- The types that are defined, or that something has or is built from. -/
def usedTypes (x : CrossReference) : List String :=
  x.declared.map Variable.type ++ x.project.pous.filterMap (·.interface.returnType) ++
    x.project.dataTypes.flatMap fun t => t.name :: t.references

/-- The kind of the organization unit of each name; of units of one name the last counts. -/
def kinds (x : CrossReference) : Keyed PouKind :=
  Keyed.ofEntries (x.project.pous.map fun p => (p.name, p.kind))

/-- What is called or instructed, and the function blocks with instances. -/
def usedPous (x : CrossReference) : List String :=
  x.mentions.filterMap Mention.call? ++
    Keyed.keys (x.kinds.filter fun e => e.2 == .functionBlock && x.usedTypes.contains e.1)

/-- The declared tags that no code mentions. -/
def unusedTags (x : CrossReference) : List String :=
  Text.inOrder (x.definedTags.filter fun n => !x.usedTags.contains n)

/-- The tags in code that are not declared. -/
def undefinedTags (x : CrossReference) : List String :=
  Text.inOrder (x.usedTags.filter fun n => !x.definedTags.contains n)

/-- The functions and function blocks that are not used; programs are run by tasks. -/
def unusedPous (x : CrossReference) : List String :=
  Text.inOrder <|
    Keyed.keys (x.kinds.filter fun e => e.2 != .program && !x.usedPous.contains e.1)

theorem mem_unusedTags_iff {x : CrossReference} {n : String} :
    n ∈ x.unusedTags ↔ n ∈ x.definedTags ∧ n ∉ x.usedTags := by
  simp [unusedTags, Text.mem_inOrder]

theorem mem_undefinedTags_iff {x : CrossReference} {n : String} :
    n ∈ x.undefinedTags ↔ n ∈ x.usedTags ∧ n ∉ x.definedTags := by
  simp [undefinedTags, Text.mem_inOrder]

theorem mem_usedTags_iff {x : CrossReference} {n : String} :
    n ∈ x.usedTags ↔ x.referencesTo n ≠ [] := by
  simp [usedTags, referencesTo]

end CrossReference

/-- What to look for.  Names of a shape among the patterns are passed over, and so are variables
and organization units in a scope among the scopes. -/
structure SmellConfig where
  unusedTags : Bool := true
  undefinedTags : Bool := true
  emptyPous : Bool := true
  unusedPous : Bool := true
  patterns : List String := []
  scopes : List String := []

/-- The smells. -/
inductive SmellKind where
  | unusedTag
  | undefinedTag
  | emptyPou
  | unusedPou
  deriving DecidableEq

/-- A smell of a name in a scope. -/
structure Smell where
  kind : SmellKind
  scope : String
  name : String
  deriving DecidableEq

namespace Smell

/-- How grave the smell is. -/
def severity (s : Smell) : Severity :=
  match s.kind with
  | .undefinedTag => .warning
  | .unusedTag | .emptyPou | .unusedPou => .hint

/-- The smell in words, without its scope. -/
def message (s : Smell) : String :=
  match s.kind with
  | .unusedTag => "tag '" ++ s.name ++ "' is defined but never used"
  | .undefinedTag => "tag '" ++ s.name ++ "' is used but not defined"
  | .emptyPou => "POU '" ++ s.name ++ "' has no code"
  | .unusedPou => "POU '" ++ s.name ++ "' is never called"

/-- The smell in one line. -/
def render (s : Smell) : String :=
  s.severity.label ++ ": " ++ s.message ++ " (" ++ s.scope ++ ")"

/-- Instructions of ladder logic, and status bits, that look like tags in text. -/
def builtinNames : List String := [
  "S", "S:FS", "S:Z", "S:N", "S:C", "S:V", "AFI", "NOP", "XIC", "XIO", "OTE", "OTL", "OTU", "ONS",
  "OSR", "OSF", "TON", "TOF", "RTO", "CTU", "CTD", "RES", "ADD", "SUB", "MUL", "DIV", "MOD", "NEG",
  "ABS", "SQRT", "MOV", "COP", "CPS", "FLL", "CLR", "EQU", "NEQ", "LES", "LEQ", "GRT", "GEQ", "CMP",
  "LIM", "JSR", "JMP", "LBL", "RET", "SBR", "TND", "MCR", "END"]

/-- The name is of a shape that is passed over. -/
def ignores (c : SmellConfig) (name : String) : Bool :=
  c.patterns.any fun p => (Text.Glob.ofText p.toList).holds name.toList

/-- The name in a scope is passed over. -/
def ignoresIn (c : SmellConfig) (scope name : String) : Bool :=
  c.scopes.contains scope || ignores c name

/-- The declared names, each with its scope. -/
def namesByScope (p : Project) : List (String × String) :=
  p.pous.flatMap (fun u => u.vars.map fun v => (u.name, v.name)) ++
    p.globals.map fun v => ("Configuration", v.name)

/-- The smells of a project, whatever is looked for. -/
def ofProject (c : SmellConfig) (x : CrossReference) : List Smell :=
  let p := x.project
  let unusedTags := (namesByScope p).filter fun (scope, name) =>
    !x.usedTags.contains name && !ignoresIn c scope name
  let undefinedTags := x.undefinedTags.filter fun n =>
    !builtinNames.contains (Text.upper n) && !ignores c n
  let emptyPous := p.pous.filter fun u => u.isEmpty && !ignoresIn c u.name u.name
  let unusedPous := x.unusedPous.filter fun n => !ignoresIn c n n
  (if c.unusedTags then unusedTags.map fun (scope, name) => ⟨.unusedTag, scope, name⟩ else []) ++
    (if c.undefinedTags then undefinedTags.map fun n => ⟨.undefinedTag, p.name, n⟩ else []) ++
    (if c.emptyPous then emptyPous.map fun u => ⟨.emptyPou, u.name, u.name⟩ else []) ++
    if c.unusedPous then unusedPous.map fun n => ⟨.unusedPou, p.name, n⟩ else []

end Smell

end Plc.Model

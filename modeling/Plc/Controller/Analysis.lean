/-
The analysis of a whole controller.

It is the outcome of every routine, in the order of programs and added instructions; everything
else is read off these outcomes or counted along them.

* `Controller.analyze` — the analysis;
* `Analysis.referencesTo`, `Analysis.undefinedTags` — tags;
* `Analysis.calls` — the uses of added instructions;
* `Analysis.stats` — how much there is of everything.
-/
import Plc.Controller.Tally
import Plc.Number.Double
import Plc.Text.Blank

namespace Plc.Controller

/-- What came of every routine of a controller. -/
structure Analysis where
  controller : Controller
  outcomes : List Outcome

/-- The analysis of a controller.  A number that cannot be read or written ends it, and so do a duration
of no finite length and an operand that is taken apart without end. -/
def analyze (c : Controller) (limits : Limits := {}) (config : SmellConfig := {}) :
    Except Fault Analysis := do
  let outcomes ← c.owners.mapM fun o => o.routines.mapM (Routine.outcome limits config o)
  return { controller := c, outcomes := outcomes.flatten }

/-- The entries, those with the greatest numbers first; of equal numbers in order of their names. -/
def ranked (counts : List (String × Nat)) : List (String × Nat) :=
  counts.mergeSort fun a b => b.2 < a.2 || a.2 == b.2 && a.1 ≤ b.1

namespace Analysis

/-! ### Rungs and texts -/

/-- The outcome of every rung. -/
def rungs (x : Analysis) : List RungOutcome :=
  x.outcomes.flatMap Outcome.rungs

/-- The rungs that were not given up. -/
def examinedRungs (x : Analysis) : List RungOutcome :=
  x.rungs.filter fun r => !r.isGivenUp

/-- The rungs with errors in their text, and the errors. -/
def rungErrors (x : Analysis) : List (RungOutcome × Ladder.RungError) :=
  x.rungs.filterMap fun r => r.error?.map fun e => (r, e)

/-- All errors in rungs, with their places and lines. -/
def rungErrorText (x : Analysis) : String :=
  "\n\n".intercalate (x.rungErrors.map fun (r, e) => e.explainAt r.source r.place)

/-- The texts that were not given up. -/
def texts (x : Analysis) : List TextOutcome :=
  x.outcomes.filterMap Outcome.text?

/-- The passed limits, and where. -/
def limitFailures (x : Analysis) : List (Place × LimitError) :=
  x.outcomes.flatMap Outcome.limitFailures

/-! ### Routines -/

/-- How much there was in each routine. -/
def summaries (x : Analysis) : List Summary :=
  x.outcomes.map Outcome.summary

/-- The first routine of a name that an owner has. -/
def summary? (x : Analysis) (owner routine : String) : Option Summary :=
  x.summaries.find? fun s => s.owner == owner && s.name == routine

/-- The routines of an owner. -/
def summariesOf (x : Analysis) (owner : String) : List Summary :=
  x.summaries.filter (·.owner == owner)

/-- The programs that have routines, each once. -/
def programNames (x : Analysis) : List String :=
  ((x.summaries.map Summary.owner).filter (!isAddOn ·)).eraseDups

/-! ### Tags -/

/-- All tags that routines mention. -/
def references (x : Analysis) : List Reference :=
  x.outcomes.flatMap Outcome.references

/-- Where a tag is mentioned. -/
def referencesTo (x : Analysis) (tag : String) : List Reference :=
  x.references.filter (·.name == tag)

/-- The tags that are mentioned. -/
def tags (x : Analysis) : List String :=
  Text.inOrder (x.references.map Reference.name)

/-- The tags in operands of an instruction. -/
def tagsOf (x : Analysis) (instruction : String) : List String :=
  Text.inOrder ((x.references.filter (·.instruction == instruction)).map Reference.name)

/-- The tag is declared in the controller or by the owner of the routine. -/
def isDefined (x : Analysis) (r : Reference) : Bool :=
  ((x.controller.visible.lookup r.place.owner).getD []).contains (Text.upper r.name)

/-- The tags that are mentioned where nothing declares them. -/
def undefinedTags (x : Analysis) : List String :=
  Text.inOrder ((x.references.filter (!x.isDefined ·)).map Reference.name)

/-! ### Instructions -/

/-- The instructions of all rungs. -/
def instructions (x : Analysis) : List Ladder.Instruction :=
  x.rungs.flatMap RungOutcome.instructions

/-- How often each instruction is used. -/
def instructionUsage (x : Analysis) : Keyed Nat :=
  Keyed.tally (x.instructions.map Ladder.Instruction.mnemonic)

/-- The `n` instructions that are used most; a negative number says how many to leave out. -/
def topInstructions (x : Analysis) (n : Int) : List (String × Nat) :=
  let all := ranked x.instructionUsage
  all.take (if n < 0 then all.length - n.natAbs else n.toNat)

/-! ### Added instructions -/

/-- The calls of added instructions. -/
def calls (x : Analysis) : List Call :=
  x.outcomes.flatMap (Outcome.calls x.controller.addOnNames)

/-- The calls of an added instruction. -/
def callsOf (x : Analysis) (addOn : String) : List Call :=
  x.calls.filter (·.addOn == addOn)

/-- The names of the added instructions, as often as they are defined. -/
def addOnNames (x : Analysis) : List String :=
  x.controller.addOns.map AddOn.name

/-- The added instructions that nothing calls. -/
def unusedAddOns (x : Analysis) : List String :=
  (x.addOnNames.filter fun n => (x.callsOf n).isEmpty).mergeSort fun a b => a ≤ b

/-- The added instructions with the number of their calls, the most used first. -/
def addOnsByUse (x : Analysis) : List (String × Nat) :=
  ranked (x.addOnNames.map fun n => (n, (x.callsOf n).length))

/-- The programs that call an added instruction. -/
def programsUsing (x : Analysis) (addOn : String) : List String :=
  Text.inOrder (((x.callsOf addOn).map (·.place.owner)).filter (!isAddOn ·))

/-- The pairs of an added instruction and another that it calls. -/
def addOnCalls (x : Analysis) : List (String × String) :=
  let pairs := (x.calls.filter fun c => isAddOn c.place.owner).map fun c =>
    (String.ofList (c.place.owner.toList.drop addOnMark.length), c.addOn)
  pairs.eraseDups.mergeSort fun a b => a.1 < b.1 || a.1 == b.1 && a.2 ≤ b.2

/-! ### How much there is -/

/-- Everything listed and counted in one walk over the routines. -/
def tally (x : Analysis) : Tally :=
  .ofOutcomes x.controller.addOnNames x.outcomes

/-- How much there is of everything. -/
def stats (x : Analysis) : Stats :=
  let t := x.tally
  { t.stats with
    programs := x.controller.programs.length
    addOns := x.controller.addOns.length
    references := t.references.length
    tags := t.tagUses.length
    instructions := t.instructionUsage.foldl (fun n use => n + use.2) 0
    limitFailures := t.limitFailures.length }

end Analysis

/-- The share of rungs that could be read, in percent; all of them if there are none. -/
def Stats.successRate (s : Stats) : Float :=
  if s.rungs == 0 then Number.ofRatio 100 1 else Number.ofRatio (100 * s.rungsRead) s.rungs

end Plc.Controller

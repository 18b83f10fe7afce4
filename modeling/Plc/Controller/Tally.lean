/-
Counting along the routines of a controller.

The outcomes of routines are gone through in order, and the rungs of a ladder routine one by one.
What is met is listed, and it is counted twice: for the whole controller, and in the summary of
the routine at hand.

* `Visit.addRung`, `Visit.addText` — a rung of the routine at hand, and its text;
* `Tally.addOutcome` — a whole routine, after which its summary is listed;
* `Tally.ofOutcomes` — all routines.
-/
import Plc.Controller.Outcome

namespace Plc.Controller

/-- How much there is of everything in a controller. -/
structure Stats where
  programs : Nat := 0
  addOns : Nat := 0
  routines : Nat := 0
  routinesByLanguage : Keyed Nat := []
  rungs : Nat := 0
  rungsInPrograms : Nat := 0
  rungsInAddOns : Nat := 0
  rungsRead : Nat := 0
  rungsFailed : Nat := 0
  references : Nat := 0
  tags : Nat := 0
  instructions : Nat := 0
  texts : Nat := 0
  textsInPrograms : Nat := 0
  textsInAddOns : Nat := 0
  statements : Nat := 0
  textsRead : Nat := 0
  textsFailed : Nat := 0
  diagnostics : Nat := 0
  limitFailures : Nat := 0

/-- What has been listed and counted so far. -/
structure Tally where
  stats : Stats := {}
  summaries : List Summary := []
  /-- The rungs that were not given up. -/
  rungs : List RungOutcome := []
  rungErrors : List (RungOutcome × Ladder.RungError) := []
  /-- The texts that were not given up. -/
  texts : List TextOutcome := []
  references : List Reference := []
  /-- The references to each tag. -/
  tagUses : Keyed (List Reference) := []
  instructionUsage : Keyed Nat := []
  calls : List Call := []
  limitFailures : List (Place × LimitError) := []

/-- The tally while a routine is gone through, and the summary of that routine. -/
structure Visit where
  tally : Tally
  summary : Summary

namespace Visit

/-- The routine at hand mentions a tag. -/
def mention (v : Visit) (r : Reference) : Visit where
  tally :=
    { v.tally with
      references := v.tally.references ++ [r]
      tagUses := v.tally.tagUses.put r.name ((v.tally.tagUses.lookup r.name).getD [] ++ [r]) }
  summary := { v.summary with references := v.summary.references + 1 }

/-- The routine at hand calls something, an added instruction perhaps; their names are given under
their capitals. -/
def call (addOns : Keyed String) (place : Place) (fromText : Bool) (v : Visit) (name : String) :
    Visit :=
  match addOns.lookup (Text.upper name) with
  | some addOn =>
    { v with tally := { v.tally with calls := v.tally.calls ++ [⟨addOn, place, fromText⟩] } }
  | none => v

/-- A rung has an instruction. -/
def use (addOns : Keyed String) (place : Place) (v : Visit) (i : Ladder.Instruction) : Visit :=
  let used := v.tally.instructionUsage
  call addOns place false
    { v with
      tally :=
        { v.tally with
          instructionUsage := used.put i.mnemonic ((used.lookup i.mnemonic).getD 0 + 1) } }
    i.mnemonic

/-- A rung is counted before it is known what comes of it. -/
def enterRung (v : Visit) : Visit :=
  let stats := v.tally.stats
  let inAddOn := isAddOn v.summary.owner
  { tally :=
      { v.tally with
        stats :=
          { stats with
            rungs := stats.rungs + 1
            rungsInPrograms := if inAddOn then stats.rungsInPrograms else stats.rungsInPrograms + 1
            rungsInAddOns := if inAddOn then stats.rungsInAddOns + 1 else stats.rungsInAddOns } }
    summary := { v.summary with rungs := v.summary.rungs + 1 } }

/-- The rung at hand could not be read. -/
def failRung (v : Visit) : Visit :=
  let stats := v.tally.stats
  { tally := { v.tally with stats := { stats with rungsFailed := stats.rungsFailed + 1 } }
    summary := { v.summary with errors := v.summary.errors + 1 } }

/-- The rung at hand could be read. -/
def readRung (v : Visit) : Visit :=
  let stats := v.tally.stats
  { tally := { v.tally with stats := { stats with rungsRead := stats.rungsRead + 1 } }
    summary := { v.summary with read := v.summary.read + 1 } }

/-- One more rung of the routine at hand: given up, with an error in it, or read. -/
def addRung (addOns : Keyed String) (v : Visit) (r : RungOutcome) : Visit :=
  let v := v.enterRung
  match r.result with
  | .error e =>
    failRung
      { v with
        tally := { v.tally with limitFailures := v.tally.limitFailures ++ [(r.location, e)] } }
  | .ok (.error e) =>
    failRung
      { v with
        tally :=
          { v.tally with
            rungs := v.tally.rungs ++ [r]
            rungErrors := v.tally.rungErrors ++ [(r, e)] } }
  | .ok (.ok rung) =>
    let v := readRung { v with tally := { v.tally with rungs := v.tally.rungs ++ [r] } }
    r.references.foldl mention (rung.instructions.foldl (use addOns r.location) v)

/-- The text is counted before it is known what comes of it. -/
def enterText (v : Visit) : Visit :=
  let stats := v.tally.stats
  let inAddOn := isAddOn v.summary.owner
  { v with
    tally :=
      { v.tally with
        stats :=
          { stats with
            texts := stats.texts + 1
            textsInPrograms := if inAddOn then stats.textsInPrograms else stats.textsInPrograms + 1
            textsInAddOns := if inAddOn then stats.textsInAddOns + 1 else stats.textsInAddOns } } }

/-- The text of the routine at hand: given up, with errors in it, or read without any. -/
def addText (addOns : Keyed String) (place : Place) (v : Visit) :
    Except LimitError TextOutcome → Visit
  | .error e =>
    let v := v.enterText
    let stats := v.tally.stats
    { tally :=
        { v.tally with
          stats := { stats with textsFailed := stats.textsFailed + 1 }
          limitFailures := v.tally.limitFailures ++ [(place, e)] }
      summary := { v.summary with errors := v.summary.errors + 1 } }
  | .ok t =>
    let v := v.enterText
    let stats := v.tally.stats
    let statements := (Stmt.flattenAll t.statements).length
    let sound := t.errors.isEmpty
    let v : Visit :=
      { tally :=
          { v.tally with
            texts := v.tally.texts ++ [t]
            stats :=
              { stats with
                statements := stats.statements + statements
                diagnostics := stats.diagnostics + t.diagnostics.length
                textsRead := if sound then stats.textsRead + 1 else stats.textsRead
                textsFailed := if sound then stats.textsFailed else stats.textsFailed + 1 } }
        summary :=
          { v.summary with
            statements
            errors := t.errors.length
            read := if sound then 1 else 0 } }
    t.callees.foldl (call addOns place true) (t.references.foldl mention v)

end Visit

namespace Tally

/-- A routine before anything of it has been gone through. -/
def enter (t : Tally) (o : Outcome) : Visit where
  tally :=
    { t with
      stats :=
        { t.stats with
          routines := t.stats.routines + 1
          routinesByLanguage := t.stats.routinesByLanguage.put o.language
            ((t.stats.routinesByLanguage.lookup o.language).getD 0 + 1) } }
  summary := { owner := o.owner, name := o.name, language := o.language }

/-- One more routine. -/
def addOutcome (addOns : Keyed String) (t : Tally) (o : Outcome) : Tally :=
  let v := match o.detail with
    | .ladder rungs => rungs.foldl (Visit.addRung addOns) (t.enter o)
    | .text result => (t.enter o).addText addOns o.place result
    | .blockDiagram | .chart => t.enter o
  { v.tally with summaries := v.tally.summaries ++ [v.summary] }

/-- All routines. -/
def ofOutcomes (addOns : Keyed String) (os : List Outcome) : Tally :=
  os.foldl (addOutcome addOns) {}

end Tally

end Plc.Controller

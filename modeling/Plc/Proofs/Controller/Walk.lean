/-
What the walk over the routines lists.

A rung, a text and a routine add to the lists of the walk what is read off their outcomes, so that
at the end the lists of the walk are those of the analysis.

* `Findings.append` — findings and then others;
* `Visit.lists_addRung`, `Visit.lists_addText` — what a rung and a text add;
* `Tally.lists_addOutcome` — what a routine adds;
* `Analysis.findings_tally`, `Analysis.usage_tally` — what is listed and counted at the end.
-/
import Plc.Proofs.Controller.Isolation
import Plc.Proofs.Keyed

namespace Plc.Controller

/-- What the walk has listed so far. -/
def Tally.findings (t : Tally) : Findings where
  summaries := t.summaries
  rungs := t.rungs
  rungErrors := t.rungErrors
  texts := t.texts
  references := t.references
  calls := t.calls
  limitFailures := t.limitFailures

namespace Findings

/-- Findings and then others. -/
def append (a b : Findings) : Findings where
  summaries := a.summaries ++ b.summaries
  rungs := a.rungs ++ b.rungs
  rungErrors := a.rungErrors ++ b.rungErrors
  texts := a.texts ++ b.texts
  references := a.references ++ b.references
  calls := a.calls ++ b.calls
  limitFailures := a.limitFailures ++ b.limitFailures

/-- Nothing but a summary. -/
def ofSummary (s : Summary) : Findings :=
  ⟨[s], [], [], [], [], [], []⟩

theorem append_assoc (a b c : Findings) : (a.append b).append c = a.append (b.append c) := by
  simp only [append, List.append_assoc]

theorem append_concat_nil (a : Findings) : a.append (.concat []) = a := by
  simp only [append, concat, List.flatMap_nil, List.append_nil]

theorem append_concat_cons (a f : Findings) (fs : List Findings) :
    a.append (.concat (f :: fs)) = (a.append f).append (.concat fs) := by
  rw [append_assoc]
  rfl

end Findings

/-- The calls of added instructions among some names. -/
def callsAmong (addOns : Keyed String) (place : Place) (fromText : Bool) (names : List String) :
    List Call :=
  names.filterMap fun name => (addOns.lookup (Text.upper name)).map fun a => ⟨a, place, fromText⟩

/-- What a rung adds to each list. -/
def RungOutcome.findings (addOns : Keyed String) (r : RungOutcome) : Findings where
  summaries := []
  rungs := [r].filter fun r => !r.isGivenUp
  rungErrors := (r.error?.map fun e => (r, e)).toList
  texts := []
  references := r.references
  calls := callsAmong addOns r.location false (r.instructions.map Ladder.Instruction.mnemonic)
  limitFailures := (r.limit?.map fun e => (r.location, e)).toList

namespace Visit

variable (addOns : Keyed String) (place : Place) (fromText : Bool)

theorem foldl_mention (v : Visit) (rs : List Reference) :
    rs.foldl mention v =
      { tally :=
          { v.tally with
            references := v.tally.references ++ rs
            tagUses := rs.foldl (fun k r => k.put r.name ((k.lookup r.name).getD [] ++ [r]))
              v.tally.tagUses }
        summary := { v.summary with references := v.summary.references + rs.length } } := by
  induction rs generalizing v with
  | nil => simp
  | cons r rs ih =>
    rw [List.foldl_cons, ih]
    simp [mention, Nat.add_comm, Nat.add_left_comm]

theorem foldl_call (v : Visit) (names : List String) :
    names.foldl (call addOns place fromText) v =
      { v with
        tally :=
          { v.tally with calls := v.tally.calls ++ callsAmong addOns place fromText names } } := by
  induction names generalizing v with
  | nil => simp [callsAmong]
  | cons name names ih =>
    rw [List.foldl_cons, ih, call]
    cases h : addOns.lookup (Text.upper name) <;> simp [callsAmong, h]

theorem foldl_use (v : Visit) (is : List Ladder.Instruction) :
    is.foldl (use addOns place) v =
      { v with
        tally :=
          { v.tally with
            instructionUsage :=
              v.tally.instructionUsage.tallyOnto (is.map Ladder.Instruction.mnemonic)
            calls := v.tally.calls ++
              callsAmong addOns place false (is.map Ladder.Instruction.mnemonic) } } := by
  induction is generalizing v with
  | nil => simp [callsAmong]
  | cons i is ih =>
    rw [List.foldl_cons, ih, use, call]
    cases h : addOns.lookup (Text.upper i.mnemonic) <;> simp [callsAmong, h]

/-- A rung is listed, counted in the summary at hand, and its instructions are counted. -/
theorem lists_addRung (v : Visit) (r : RungOutcome) :
    (v.addRung addOns r).tally.findings = v.tally.findings.append (r.findings addOns) ∧
      (v.addRung addOns r).summary =
        { v.summary with
          rungs := v.summary.rungs + 1
          read := v.summary.read + if r.isRead then 1 else 0
          errors := v.summary.errors + if r.isRead then 0 else 1
          references := v.summary.references + r.references.length } ∧
      (v.addRung addOns r).tally.instructionUsage =
        v.tally.instructionUsage.tallyOnto (r.instructions.map Ladder.Instruction.mnemonic) := by
  -- the rung is given up, has an error in it, or is read
  obtain ⟨place, comment, source, e | e | rung, uses, found⟩ := r
  · cases found
    refine ⟨?_, rfl, rfl⟩
    simp [addRung, failRung, enterRung, Tally.findings, Findings.append, RungOutcome.findings,
      RungOutcome.isGivenUp, RungOutcome.limit?, RungOutcome.error?, RungOutcome.references,
      RungOutcome.instructions, RungOutcome.rung?, callsAmong]
  · cases found
    refine ⟨?_, rfl, rfl⟩
    simp [addRung, failRung, enterRung, Tally.findings, Findings.append, RungOutcome.findings,
      RungOutcome.isGivenUp, RungOutcome.limit?, RungOutcome.error?, RungOutcome.references,
      RungOutcome.instructions, RungOutcome.rung?, callsAmong]
  · unfold addRung
    dsimp only
    rw [foldl_mention, foldl_use]
    refine ⟨?_, rfl, rfl⟩
    simp [readRung, enterRung, Tally.findings, Findings.append, RungOutcome.findings,
      RungOutcome.isGivenUp, RungOutcome.limit?, RungOutcome.error?,
      RungOutcome.instructions, RungOutcome.rung?]

/-- The rungs of a routine, one after the other. -/
theorem lists_foldl_addRung (v : Visit) (rungs : List RungOutcome) :
    (rungs.foldl (addRung addOns) v).tally.findings =
        v.tally.findings.append (.concat (rungs.map (RungOutcome.findings addOns))) ∧
      (rungs.foldl (addRung addOns) v).summary =
        { v.summary with
          rungs := v.summary.rungs + rungs.length
          read := v.summary.read + rungs.countP RungOutcome.isRead
          errors := v.summary.errors + rungs.countP fun r => !r.isRead
          references := v.summary.references + (rungs.flatMap RungOutcome.references).length } ∧
      (rungs.foldl (addRung addOns) v).tally.instructionUsage =
        v.tally.instructionUsage.tallyOnto
          ((rungs.flatMap RungOutcome.instructions).map Ladder.Instruction.mnemonic) := by
  induction rungs generalizing v with
  | nil => exact ⟨(Findings.append_concat_nil _).symm, rfl, rfl⟩
  | cons r rungs ih =>
    obtain ⟨findings, summary, usage⟩ := lists_addRung addOns v r
    obtain ⟨findings', summary', usage'⟩ := ih (v.addRung addOns r)
    refine ⟨?_, ?_, ?_⟩
    · rw [List.foldl_cons, findings', findings, List.map_cons, Findings.append_concat_cons]
    · rw [List.foldl_cons, summary', summary]
      cases h : r.isRead <;> simp [h] <;> omega
    · rw [List.foldl_cons, usage', usage, List.flatMap_cons, List.map_append,
        Keyed.tallyOnto_append]

end Visit

theorem Outcome.findings_ladder (addOns : Keyed String) (owner name : String)
    (rungs : List RungOutcome) :
    Outcome.findings addOns ⟨owner, name, .ladder rungs⟩ =
      (Findings.concat (rungs.map (RungOutcome.findings addOns))).append
        (.ofSummary (Outcome.summary ⟨owner, name, .ladder rungs⟩)) := by
  have listed : rungs.filter (fun r => !r.isGivenUp) =
      rungs.flatMap fun r => [r].filter fun r => !r.isGivenUp := by
    rw [← List.filter_flatMap, List.flatMap_singleton']
  simp only [Outcome.findings, Outcome.rungs, Outcome.text?, Outcome.references, Outcome.calls,
    Outcome.limitFailures, Option.toList_none, Option.elim_none,
    List.filterMap_eq_flatMap_toList, listed, Findings.concat, Findings.append, Findings.ofSummary,
    List.flatMap_map, RungOutcome.findings, callsAmong, List.append_nil]
  simp

/-- A text and its summary are listed, and it has no instructions to be counted. -/
theorem Visit.lists_addText (addOns : Keyed String) (t : Tally) (owner name : String)
    (result : Except LimitError TextOutcome) :
    let o : Outcome := ⟨owner, name, .text result⟩
    let v := (t.enter o).addText addOns o.place result
    v.tally.findings.append (.ofSummary v.summary) = t.findings.append (o.findings addOns) ∧
      v.tally.instructionUsage = t.instructionUsage := by
  cases result with
  | error e =>
    refine ⟨?_, rfl⟩
    simp [addText, enterText, Tally.enter, Tally.findings, Findings.append, Findings.ofSummary,
      Outcome.findings, Outcome.summary, Outcome.language, Outcome.rungs, Outcome.text?,
      Outcome.readCount, Outcome.errorCount, Outcome.references, Outcome.calls,
      Outcome.limitFailures]
  | ok x =>
    dsimp only [addText]
    rw [foldl_call, foldl_mention]
    refine ⟨?_, rfl⟩
    simp [enterText, Tally.enter, Tally.findings, Findings.append, Findings.ofSummary,
      Outcome.findings, Outcome.summary, Outcome.language, Outcome.rungs, Outcome.text?,
      Outcome.readCount, Outcome.errorCount, Outcome.references, Outcome.calls,
      Outcome.limitFailures, callsAmong]

namespace Tally

variable (addOns : Keyed String)

/-- A routine adds to each list what its outcome adds. -/
theorem lists_addOutcome (t : Tally) (o : Outcome) :
    (t.addOutcome addOns o).findings = t.findings.append (o.findings addOns) ∧
      (t.addOutcome addOns o).instructionUsage =
        t.instructionUsage.tallyOnto
          ((o.rungs.flatMap RungOutcome.instructions).map Ladder.Instruction.mnemonic) := by
  -- Whatever the language, the summary is added when the routine is left.
  have leave (v : Visit) :
      findings { v.tally with summaries := v.tally.summaries ++ [v.summary] } =
        v.tally.findings.append (.ofSummary v.summary) := by
    simp only [findings, Findings.append, Findings.ofSummary, List.append_nil]
  obtain ⟨owner, name, detail⟩ := o
  cases detail with
  | ladder rungs =>
    obtain ⟨findings, summary, usage⟩ :=
      Visit.lists_foldl_addRung addOns (t.enter ⟨owner, name, .ladder rungs⟩) rungs
    have listed : (rungs.foldl (Visit.addRung addOns)
        (t.enter ⟨owner, name, .ladder rungs⟩)).summary =
        Outcome.summary ⟨owner, name, .ladder rungs⟩ := by
      rw [summary]
      simp [enter, Outcome.summary, Outcome.language, Outcome.rungs, Outcome.text?,
        Outcome.readCount, Outcome.errorCount, Outcome.references]
    refine ⟨(leave _).trans ?_, usage⟩
    rw [findings, listed, Findings.append_assoc, ← Outcome.findings_ladder]
    rfl
  | text result =>
    obtain ⟨findings, usage⟩ := Visit.lists_addText addOns t owner name result
    exact ⟨(leave _).trans findings, usage⟩
  | blockDiagram => exact ⟨leave (t.enter _), rfl⟩
  | chart => exact ⟨leave (t.enter _), rfl⟩

theorem lists_foldl_addOutcome (t : Tally) (os : List Outcome) :
    (os.foldl (addOutcome addOns) t).findings =
        t.findings.append (.concat (os.map (Outcome.findings addOns))) ∧
      (os.foldl (addOutcome addOns) t).instructionUsage =
        t.instructionUsage.tallyOnto
          ((os.flatMap fun o => o.rungs.flatMap RungOutcome.instructions).map
            Ladder.Instruction.mnemonic) := by
  induction os generalizing t with
  | nil => exact ⟨(Findings.append_concat_nil _).symm, rfl⟩
  | cons o os ih =>
    obtain ⟨findings, usage⟩ := lists_addOutcome addOns t o
    obtain ⟨findings', usage'⟩ := ih (t.addOutcome addOns o)
    refine ⟨?_, ?_⟩
    · rw [List.foldl_cons, findings', findings, List.map_cons, Findings.append_concat_cons]
    · rw [List.foldl_cons, usage', usage, List.flatMap_cons, List.map_append,
        Keyed.tallyOnto_append]

end Tally

namespace Analysis

/-- The lists of the walk are those read off the outcomes. -/
theorem findings_tally (x : Analysis) : x.tally.findings = x.findings :=
  (Tally.lists_foldl_addOutcome x.controller.addOnNames {} x.outcomes).1.trans x.findings_eq.symm

/-- The walk counts every instruction of every rung. -/
theorem usage_tally (x : Analysis) : x.tally.instructionUsage = x.instructionUsage := by
  refine (Tally.lists_foldl_addOutcome x.controller.addOnNames {} x.outcomes).2.trans ?_
  rw [instructionUsage, instructions, rungs, List.flatMap_assoc]
  rfl

end Analysis

end Plc.Controller

/-
Routines do not interfere.

Everything that an analysis lists is what the single routines give, one after the other in the
order of programs and then added instructions.  What a routine gives depends on its owner's
name, on the symbols that can be seen from it and on the names of the added instructions, but on
no other routine.  So whatever a routine's code is replaced by, the others give what they gave.

Three things take the whole analysis with them: a number that cannot be read or written, a duration of
no finite length, and an operand that is taken apart without end.  Recursion that comes to its end is
taken to have room for it.

* `Findings` — what routines give, list by list;
* `Site`, `Controller.sites` — a routine with all its outcome depends on, and all of them in order;
* `findings_analyze` — an analysis lists what the sites give;
* `sites_withCode` — one code replaced leaves the other sites;
* `Routine.Code.Ends`, `Routine.outcome_error` — what ends the reading of a routine;
* `analyze_withCode` — so it leaves what they give, unless the new code ends the analysis;
* `analyze_error` — what ends an analysis;
* `analyze_returns_iff` — when there is an analysis.
-/
import Mathlib.Data.List.Basic
import Plc.Controller.Analysis
import Plc.Proofs.Fallible
import Plc.Proofs.Operand.Ends
import Plc.Proofs.Progress.Reading

namespace Plc.Controller

/-! ### Findings -/

/-- What comes of routines, list by list. -/
structure Findings where
  summaries : List Summary
  /-- The rungs that were not given up. -/
  rungs : List RungOutcome
  rungErrors : List (RungOutcome × Ladder.RungError)
  texts : List TextOutcome
  references : List Reference
  calls : List Call
  limitFailures : List (Place × LimitError)

namespace Findings

/-- Findings one after the other. -/
def concat (fs : List Findings) : Findings where
  summaries := fs.flatMap summaries
  rungs := fs.flatMap rungs
  rungErrors := fs.flatMap rungErrors
  texts := fs.flatMap texts
  references := fs.flatMap references
  calls := fs.flatMap calls
  limitFailures := fs.flatMap limitFailures

end Findings

/-- What an outcome adds to each list. -/
def Outcome.findings (addOns : Keyed String) (o : Outcome) : Findings where
  summaries := [o.summary]
  rungs := o.rungs.filter fun r => !r.isGivenUp
  rungErrors := o.rungs.filterMap fun r => r.error?.map fun e => (r, e)
  texts := o.text?.toList
  references := o.references
  calls := o.calls addOns
  limitFailures := o.limitFailures

/-- What an analysis lists. -/
def Analysis.findings (x : Analysis) : Findings where
  summaries := x.summaries
  rungs := x.examinedRungs
  rungErrors := x.rungErrors
  texts := x.texts
  references := x.references
  calls := x.calls
  limitFailures := x.limitFailures

theorem Analysis.findings_eq (x : Analysis) :
    x.findings = .concat (x.outcomes.map (Outcome.findings x.controller.addOnNames)) := by
  have summaries : x.summaries = x.outcomes.flatMap fun o => [o.summary] := List.map_eq_flatMap
  have texts : x.texts = x.outcomes.flatMap fun o => o.text?.toList :=
    List.filterMap_eq_flatMap_toList ..
  simp only [findings, summaries, examinedRungs, rungErrors, rungs, texts, references, calls,
    limitFailures, Findings.concat, Outcome.findings, List.flatMap_map, List.filter_flatMap,
    List.filterMap_flatMap]

/-! ### Sites -/

/-- A routine with everything that its outcome depends on. -/
structure Site where
  owner : String
  /-- The symbols that can be seen from the routine. -/
  symbols : List Symbol
  routine : Routine

namespace Site

/-- What comes of the routine. -/
def findings (limits : Limits) (config : SmellConfig) (addOns : Keyed String) (s : Site) :
    Except Fault Findings :=
  (s.routine.outcome limits config ⟨s.owner, s.symbols, []⟩).map (Outcome.findings addOns)

/-- The site with other code. -/
def withCode (s : Site) (code : Routine.Code) : Site :=
  { s with routine := { s.routine with code } }

end Site

/-- The routines of an owner, each with what its outcome depends on. -/
def Owner.sites (o : Owner) : List Site :=
  o.routines.map fun r => ⟨o.name, o.symbols, r⟩

/-- The routines of a controller in the order of their owners. -/
def sites (c : Controller) : List Site :=
  c.owners.flatMap Owner.sites

/-- An analysis lists what the sites give, one after the other. -/
theorem findings_analyze (c : Controller) (limits : Limits) (config : SmellConfig) :
    (c.analyze limits config).map Analysis.findings =
      (c.sites.mapM (Site.findings limits config c.addOnNames)).map Findings.concat := by
  have outcomes :
      (c.sites.mapM fun s : Site => s.routine.outcome limits config ⟨s.owner, s.symbols, []⟩) =
        (c.owners.mapM fun o : Owner => o.routines.mapM (Routine.outcome limits config o)).map
          List.flatten := by
    rw [sites, mapM_flatMap]
    simp only [Owner.sites, List.mapM_map]
    rfl
  unfold Site.findings
  rw [mapM_map_ok, outcomes]
  unfold analyze
  cases c.owners.mapM fun o : Owner => o.routines.mapM (Routine.outcome limits config o) with
  | error e => rfl
  | ok os => exact congrArg Except.ok (Analysis.findings_eq ⟨c, os.flatten⟩)

theorem analyze_eq_ok {c : Controller} {limits : Limits} {config : SmellConfig} {x : Analysis}
    (h : c.analyze limits config = .ok x) :
    ∃ fs, c.sites.mapM (Site.findings limits config c.addOnNames) = .ok fs ∧
      x.findings = .concat fs := by
  have found := findings_analyze c limits config
  rw [h] at found
  obtain ⟨fs, all, same⟩ := map_eq_ok found.symm
  exact ⟨fs, all, same.symm⟩

/-! ### Replacing the code of a routine -/

/-- Which routine of which owner: their numbers, from zero. -/
inductive Slot where
  | program (owner routine : Nat)
  | addOn (owner routine : Nat)

/-- The routines with the code of one replaced. -/
def withCodeAt (routines : List Routine) (j : Nat) (code : Routine.Code) : List Routine :=
  routines.modify j fun r => { r with code }

/-- The controller with the code of one routine replaced. -/
def withCode (c : Controller) (code : Routine.Code) : Slot → Controller
  | .program i j =>
    { c with programs := c.programs.modify i fun p =>
      { p with routines := withCodeAt p.routines j code } }
  | .addOn i j =>
    { c with addOns := c.addOns.modify i fun a =>
      { a with routines := withCodeAt a.routines j code } }

/-- The owner of a slot. -/
def ownerAt? (c : Controller) : Slot → Option Owner
  | .program i _ => c.programs[i]?.map c.ownerOfProgram
  | .addOn i _ => c.addOns[i]?.map c.ownerOfAddOn

/-- The number that a routine has in its owner. -/
def Slot.routine : Slot → Nat
  | .program _ j | .addOn _ j => j

/-- The site in a slot. -/
def siteAt? (c : Controller) (slot : Slot) : Option Site :=
  (c.ownerAt? slot).bind fun o => o.sites[slot.routine]?

/-- The entry with a number stands between those that a change to it leaves. -/
theorem exists_modify {α : Type} {xs : List α} {i : Nat} {a : α} (h : xs[i]? = some a) :
    ∃ before after, xs = before ++ a :: after ∧ ∀ f, xs.modify i f = before ++ f a :: after := by
  obtain ⟨hi, rfl⟩ := List.getElem?_eq_some_iff.1 h
  refine ⟨xs.take i, xs.drop (i + 1), ?_, fun f => List.modify_eq_take_cons_drop hi⟩
  rw [← List.drop_eq_getElem_cons hi, List.take_append_drop]

theorem Owner.sites_withCode {o : Owner} {j : Nat} {s : Site} (h : o.sites[j]? = some s) :
    ∃ before after, o.sites = before ++ s :: after ∧
      ∀ code, Owner.sites { o with routines := withCodeAt o.routines j code } =
        before ++ s.withCode code :: after := by
  obtain ⟨before, after, same, other⟩ := exists_modify h
  refine ⟨before, after, same, fun code => ?_⟩
  rw [← other fun s => s.withCode code]
  exact List.ext_getElem? fun k => by
    simp only [Owner.sites, withCodeAt, List.getElem?_map, List.getElem?_modify]
    cases o.routines[k]? with
    | none => rfl
    | some r => split <;> rfl

/-- Sites before and after those of one owner. -/
theorem sites_between (before after : List Owner) {o : Owner} {j : Nat} {s : Site}
    (h : o.sites[j]? = some s) :
    ∃ earlier later, (before ++ o :: after).flatMap Owner.sites = earlier ++ s :: later ∧
      ∀ code, (before ++ { o with routines := withCodeAt o.routines j code } :: after).flatMap
        Owner.sites = earlier ++ s.withCode code :: later := by
  obtain ⟨mine, rest, same, other⟩ := Owner.sites_withCode h
  refine ⟨before.flatMap Owner.sites ++ mine, rest ++ after.flatMap Owner.sites, ?_, fun code => ?_⟩
  · rw [List.flatMap_append, List.flatMap_cons, same]
    simp only [List.append_assoc, List.cons_append]
  · rw [List.flatMap_append, List.flatMap_cons, other]
    simp only [List.append_assoc, List.cons_append]

/-- Replacing the code in a slot changes the site there and leaves the others. -/
theorem sites_withCode {c : Controller} {slot : Slot} {s : Site} (h : c.siteAt? slot = some s) :
    ∃ earlier later, c.sites = earlier ++ s :: later ∧
      ∀ code, (c.withCode code slot).sites = earlier ++ s.withCode code :: later := by
  obtain ⟨o, ho, hs⟩ := Option.bind_eq_some_iff.1 h
  -- The owner is changed in its own list, and the routine in the list of its owner; programs come
  -- before added instructions.
  cases slot with
  | program i j =>
    obtain ⟨p, hp, rfl⟩ := Option.map_eq_some_iff.1 ho
    obtain ⟨before, after, same, other⟩ := exists_modify hp
    obtain ⟨earlier, later, here, there⟩ := sites_between
      (before.map c.ownerOfProgram)
      (after.map c.ownerOfProgram ++ c.addOns.map c.ownerOfAddOn) hs
    refine ⟨earlier, later, ?_, fun code => ?_⟩
    · rw [← here, sites, owners, same]
      simp only [List.map_append, List.map_cons, List.append_assoc, List.cons_append]
    · rw [← there, sites, owners, withCode, other]
      simp only [List.map_append, List.map_cons, List.append_assoc, List.cons_append]
      rfl
  | addOn i j =>
    obtain ⟨a, ha, rfl⟩ := Option.map_eq_some_iff.1 ho
    obtain ⟨before, after, same, other⟩ := exists_modify ha
    obtain ⟨earlier, later, here, there⟩ := sites_between
      (c.programs.map c.ownerOfProgram ++ before.map c.ownerOfAddOn)
      (after.map c.ownerOfAddOn) hs
    refine ⟨earlier, later, ?_, fun code => ?_⟩
    · rw [← here, sites, owners, same]
      simp only [List.map_append, List.map_cons, List.append_assoc]
    · rw [← there, sites, owners, withCode, other]
      simp only [List.map_append, List.map_cons, List.append_assoc]
      rfl

/-- The names of added instructions have nothing to do with code. -/
theorem addOnNames_withCode (c : Controller) (code : Routine.Code) (slot : Slot) :
    (c.withCode code slot).addOnNames = c.addOnNames := by
  cases slot with
  | program i j => rfl
  | addOn i j =>
    rw [addOnNames, addOnNames, withCode]
    congr 1
    exact List.ext_getElem? fun k => by
      simp only [List.getElem?_map, List.getElem?_modify]
      cases c.addOns[k]? with
      | none => rfl
      | some a => split <;> rfl

/-! ### What ends an analysis -/

/-- The rung can be read, and an operand in it is taken apart without end. -/
def RungText.IsEndless (limits : Limits) (r : RungText) : Prop :=
  ∃ rung : Ladder.Rung,
    Ladder.readLine (r.text.getD "").toList limits = .ok (.ok rung) ∧ rung.IsEndless

instance (limits : Limits) (r : RungText) : Decidable (r.IsEndless limits) :=
  match h : Ladder.readLine (r.text.getD "").toList limits with
  | .ok (.ok rung) =>
    decidable_of_iff rung.IsEndless <| by
      rw [RungText.IsEndless, h]
      constructor
      · exact fun endless => ⟨rung, rfl, endless⟩
      · rintro ⟨_, ⟨⟩, endless⟩
        exact endless
  | .ok (.error _) | .error _ =>
    isFalse <| by
      rw [RungText.IsEndless, h]
      rintro ⟨rung, ⟨⟩, -⟩

/-- Neither an error in a rung nor a passed limit ends the reading of it. -/
theorem RungText.outcome_eq_error_iff {limits : Limits} {owner routine : String} {r : RungText}
    {f : Fault} : r.outcome limits owner routine = .error f ↔ f = .endless ∧ r.IsEndless limits := by
  have given : r.outcome limits owner routine = .error f ↔
      usesOf (Ladder.readLine (r.text.getD "").toList limits) = .error f := by
    unfold RungText.outcome
    dsimp only
    split
    · next uses found =>
      refine iff_of_false (by rintro ⟨⟩) fun stops => ?_
      cases found.symm.trans stops
    · next e found => rw [found, Except.error.injEq, Except.error.injEq]
  rw [given]
  unfold IsEndless
  cases Ladder.readLine (r.text.getD "").toList limits with
  | error limit =>
    refine iff_of_false (by rintro ⟨⟩) ?_
    rintro ⟨-, rung, ⟨⟩, -⟩
  | ok result =>
    cases result with
    | error e =>
      refine iff_of_false (by rintro ⟨⟩) ?_
      rintro ⟨-, rung, ⟨⟩, -⟩
    | ok rung =>
      refine Ladder.Rung.tagUses_eq_error_iff.trans (and_congr_right fun _ => ?_)
      constructor
      · exact fun endless => ⟨rung, rfl, endless⟩
      · rintro ⟨_, ⟨⟩, endless⟩
        exact endless

/-- A text is read with recovery, so that only a literal can end the reading, or a number that would
have to be written. -/
theorem readText_error {limits : Limits} {config : SmellConfig} {o : Owner} {name source : String}
    {f : Fault} (h : readText limits config o name source = .error f) :
    f = .unreadableDigits ∨ f = .infiniteDuration := by
  unfold readText at h
  dsimp only at h
  split at h
  · split at h
    · cases h
      exact .inl rfl
    · cases h
  · cases h
  · next stopped notLimit failed =>
    cases h
    have pays := Reading.statementsRecovering_pays _ _ fun e stops =>
      notLimit e (Except.error.inj (failed.symm.trans stops))
    rwa [failed] at pays

/-- What in the code of a routine ends an analysis: in a text, a number that cannot be read or written,
or a duration of no finite length; in a ladder, an operand that is taken apart without end. -/
inductive Routine.Code.Ends (limits : Limits) : Routine.Code → Fault → Prop
  | digits (lines : List String) : Ends limits (.text lines) .unreadableDigits
  | duration (lines : List String) : Ends limits (.text lines) .infiniteDuration
  | operand {rungs : List RungText} {r : RungText} (mem : r ∈ rungs) (endless : r.IsEndless limits) :
      Ends limits (.ladder rungs) .endless

/-- A ladder ends an analysis just when there is such an operand in a rung of it. -/
theorem Routine.outcome_ladder_eq_error_iff {limits : Limits} {config : SmellConfig} {o : Owner}
    {name : String} {rungs : List RungText} {f : Fault} :
    Routine.outcome limits config o ⟨name, .ladder rungs⟩ = .error f ↔
      f = .endless ∧ ∃ r ∈ rungs, r.IsEndless limits := by
  have given : Routine.outcome limits config o ⟨name, .ladder rungs⟩ =
      (rungs.mapM (RungText.outcome limits o.name name) >>= fun rs =>
        pure ⟨o.name, name, .ladder rs⟩) := rfl
  have only (r : RungText) (e : Fault) (h : r.outcome limits o.name name = .error e) : e = .endless :=
    (RungText.outcome_eq_error_iff.1 h).1
  rw [given, bind_pure_eq_error, mapM_eq_error_iff only]
  exact and_congr_right fun _ => exists_congr fun r => and_congr_right fun _ =>
    RungText.outcome_eq_error_iff.trans (and_iff_right rfl)

/-- Neither a syntax error nor a passed limit ends the reading of a routine. -/
theorem Routine.outcome_error {limits : Limits} {config : SmellConfig} {o : Owner} {r : Routine}
    {f : Fault} (h : r.outcome limits config o = .error f) : r.code.Ends limits f := by
  obtain ⟨name, code⟩ := r
  cases code with
  | ladder rungs =>
    obtain ⟨rfl, r, mem, endless⟩ := outcome_ladder_eq_error_iff.1 h
    exact .operand mem endless
  | text lines =>
    have given : (readText limits config o name (source lines) >>= fun t =>
        pure (⟨o.name, name, .text t⟩ : Outcome)) = .error f := h
    obtain rfl | rfl := readText_error (bind_pure_eq_error.1 given)
    · exact .digits lines
    · exact .duration lines
  | blockDiagram => cases h
  | chart => cases h

theorem Site.findings_error {limits : Limits} {config : SmellConfig} {addOns : Keyed String}
    {s : Site} {f : Fault} (h : s.findings limits config addOns = .error f) :
    s.routine.code.Ends limits f :=
  Routine.outcome_error (map_eq_error h)

/-! ### Two analyses -/

/-- The analysis of a controller in which the code of one routine is replaced by any other.  What
the routines before it and after it give stays as it was, list by list, and what the routine itself
gives stands between; unless there is something in the new code that ends the analysis. -/
theorem analyze_withCode {c : Controller} {limits : Limits} {config : SmellConfig} {x : Analysis}
    {slot : Slot} {s : Site} (h : c.analyze limits config = .ok x) (hs : c.siteAt? slot = some s) :
    ∃ earlier later before mine after,
      c.sites = earlier ++ s :: later ∧
      earlier.mapM (Site.findings limits config c.addOnNames) = .ok before ∧
      s.findings limits config c.addOnNames = .ok mine ∧
      later.mapM (Site.findings limits config c.addOnNames) = .ok after ∧
      x.findings = .concat (before ++ mine :: after) ∧
      ∀ code,
        (∃ x' mine', (c.withCode code slot).analyze limits config = .ok x' ∧
          (s.withCode code).findings limits config c.addOnNames = .ok mine' ∧
          x'.findings = .concat (before ++ mine' :: after)) ∨
        ∃ f, code.Ends limits f ∧
          (s.withCode code).findings limits config c.addOnNames = .error f ∧
          (c.withCode code slot).analyze limits config = .error f := by
  obtain ⟨earlier, later, same, other⟩ := sites_withCode hs
  obtain ⟨fs, all, found⟩ := analyze_eq_ok h
  rw [same] at all
  obtain ⟨before, mine, after, rfl, first, here, last⟩ := mapM_between all
  refine ⟨earlier, later, before, mine, after, same, first, here, last, found, fun code => ?_⟩
  -- The sites are the same but for this one, so the lists around it are too.
  have replaced := findings_analyze (c.withCode code slot) limits config
  rw [addOnNames_withCode, other, mapM_around first last] at replaced
  cases given : (s.withCode code).findings limits config c.addOnNames with
  | ok mine' =>
    rw [given] at replaced
    obtain ⟨x', hx', findings'⟩ := map_eq_ok replaced
    exact .inl ⟨x', mine', hx', rfl, findings'⟩
  | error f =>
    rw [given] at replaced
    exact .inr ⟨f, Site.findings_error given, rfl, map_eq_error replaced⟩

/-- An analysis ends without a result only at a routine whose code ends it. -/
theorem analyze_error {c : Controller} {limits : Limits} {config : SmellConfig} {f : Fault}
    (h : c.analyze limits config = .error f) :
    ∃ s ∈ c.sites, s.routine.code.Ends limits f ∧
      s.findings limits config c.addOnNames = .error f := by
  have found := findings_analyze c limits config
  rw [h] at found
  obtain ⟨s, hs, stops⟩ := mapM_error (map_eq_error found.symm)
  exact ⟨s, hs, Site.findings_error stops, stops⟩

/-- What comes of the routine can be told. -/
def Site.hasOutcome (limits : Limits) (config : SmellConfig) (s : Site) : Bool :=
  match s.routine.code with
  | .ladder rungs => rungs.all fun r => !decide (r.IsEndless limits)
  | .text lines =>
    (readText limits config ⟨s.owner, s.symbols, []⟩ s.routine.name
      (Routine.source lines)).toOption.isSome
  | .blockDiagram | .chart => true

theorem Site.hasOutcome_iff {limits : Limits} {config : SmellConfig} {addOns : Keyed String}
    {s : Site} : s.hasOutcome limits config = true ↔ ∃ fs, s.findings limits config addOns = .ok fs := by
  obtain ⟨owner, symbols, name, code⟩ := s
  unfold hasOutcome findings
  cases code with
  | ladder rungs =>
    simp only [List.all_eq_true, Bool.not_eq_true', decide_eq_false_iff_not]
    cases given : Routine.outcome limits config ⟨owner, symbols, []⟩ ⟨name, .ladder rungs⟩ with
    | ok o =>
      refine iff_of_true (fun r mem endless => ?_) ⟨_, rfl⟩
      cases given.symm.trans (Routine.outcome_ladder_eq_error_iff.2 ⟨rfl, r, mem, endless⟩)
    | error f =>
      obtain ⟨-, r, mem, endless⟩ := Routine.outcome_ladder_eq_error_iff.1 given
      exact iff_of_false (fun fine => fine r mem endless) (by rintro ⟨fs, ⟨⟩⟩)
  | text lines =>
    have given : Routine.outcome limits config ⟨owner, symbols, []⟩ ⟨name, .text lines⟩ =
        (readText limits config ⟨owner, symbols, []⟩ name (Routine.source lines) >>= fun t =>
          pure ⟨owner, name, .text t⟩) := rfl
    dsimp only
    rw [given]
    cases readText limits config ⟨owner, symbols, []⟩ name (Routine.source lines) with
    | ok t => exact iff_of_true rfl ⟨_, rfl⟩
    | error f => exact iff_of_false Bool.false_ne_true (by rintro ⟨fs, ⟨⟩⟩)
  | blockDiagram | chart => exact iff_of_true rfl ⟨_, rfl⟩

/-- There is an analysis just when each routine has an outcome. -/
theorem analyze_returns_iff {c : Controller} {limits : Limits} {config : SmellConfig} :
    (∃ x, c.analyze limits config = .ok x) ↔ ∀ s ∈ c.sites, s.hasOutcome limits config = true := by
  have found := findings_analyze c limits config
  have each : (∃ fs, c.sites.mapM (Site.findings limits config c.addOnNames) = .ok fs) ↔
      ∀ s ∈ c.sites, s.hasOutcome limits config = true :=
    mapM_returns_iff.trans (forall₂_congr fun s _ => Site.hasOutcome_iff.symm)
  rw [← each]
  constructor
  · rintro ⟨x, h⟩
    obtain ⟨fs, all, -⟩ := analyze_eq_ok h
    exact ⟨fs, all⟩
  · rintro ⟨fs, all⟩
    rw [all] at found
    obtain ⟨x, h, -⟩ := map_eq_ok found
    exact ⟨x, h⟩

/-! ### An instance -/

/-- A program with two ladders. -/
def twoLadders : Controller where
  name := "C"
  programs := [{
    name := "P"
    tags := [{ name := "a", type := some "REAL" }, { name := "d", type := some "REAL" }]
    routines := [
      ⟨"Bad", .ladder [{ text := some "CPT(d,ABS(a)-1);" }]⟩,
      ⟨"Good", .ladder [{ text := some "MOV(d,a);" }]⟩] }]

theorem twoLadders_analyze : ∃ x, twoLadders.analyze = .ok x :=
  analyze_returns_iff.2 (by decide +kernel)

/-- No rungs that the first routine could have instead, broken or not, change what the second one
gives, as long as their operands can be taken apart. -/
theorem analyze_withCode_ladder :
    ∃ x s before mine after, twoLadders.analyze = .ok x ∧
      twoLadders.siteAt? (.program 0 0) = some s ∧
      x.findings = .concat (before ++ mine :: after) ∧
      ∀ rungs, (∀ r ∈ rungs, ¬r.IsEndless {}) →
        ∃ x' mine', (twoLadders.withCode (.ladder rungs) (.program 0 0)).analyze = .ok x' ∧
          x'.findings = .concat (before ++ mine' :: after) := by
  obtain ⟨x, hx⟩ := twoLadders_analyze
  obtain ⟨_, _, before, mine, after, _, _, _, _, found, replaced⟩ :=
    @analyze_withCode _ _ _ _ (.program 0 0) _ hx rfl
  refine ⟨x, _, before, mine, after, hx, rfl, found, fun rungs fine => ?_⟩
  obtain ⟨x', mine', hx', _, found'⟩ | ⟨_, ends, _⟩ := replaced (.ladder rungs)
  · exact ⟨x', mine', hx', found'⟩
  · cases ends with
    | operand mem endless => exact absurd endless (fine _ mem)

/-- A number whose digits cannot be read takes with it what the other routine gives. -/
theorem analyze_withCode_unreadable :
    ¬ ∀ (c : Controller) (code : Routine.Code) (slot : Slot) (x : Analysis), c.analyze = .ok x →
      ∃ x', (c.withCode code slot).analyze = .ok x' ∧
        ∀ s ∈ x.summaries, s.name = "Good" → s ∈ x'.summaries := by
  intro every
  obtain ⟨x, hx⟩ := twoLadders_analyze
  obtain ⟨x', hx', -⟩ := every twoLadders (.text ["x := 1e²;"]) (.program 0 0) x hx
  have all := analyze_returns_iff.1 ⟨x', hx'⟩
  exact absurd all (by decide +kernel)

-- so does an operand that is its own part
example : ¬∃ x, (twoLadders.withCode (.ladder [{ text := some "CPT(d,ABS(a)(a));" }])
    (.program 0 0)).analyze = .ok x := by
  rw [analyze_returns_iff]
  decide +kernel

end Plc.Controller

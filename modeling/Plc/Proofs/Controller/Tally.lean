/-
The counters of an analysis add up.

The walk over the routines counts rungs, texts, statements and references for the whole controller
and for each routine, and it lists what it counts.  After every rung and every text the counters
agree with each other, with the lists and with the summaries, the one at hand included; so they do
at the end.

* `Tally.Balanced` — the counters agree;
* `Visit.Balanced.addRung`, `Visit.Balanced.addText` — a rung and a text keep that;
* `Tally.Balanced.ofOutcomes` — so does a whole walk;
* `addsUp_of_analyze` — the counters of every analysis add up.
-/
import Plc.Proofs.Controller.Walk

namespace Plc.Controller

/-! ### The invariant -/

/-- The counters agree with each other, with what is listed and with the sums over the listed
summaries, if routines in the given languages have been begun and the summary at hand, which is not
listed yet, counts the given numbers. -/
structure Tally.Balanced (t : Tally) (languages : List String) (rungs statements references : Nat) :
    Prop where
  routines : t.stats.routines = languages.length
  languages : t.stats.routinesByLanguage = Keyed.tally languages
  rungs : t.stats.rungs = (t.summaries.map Summary.rungs).sum + rungs
  rungsRead : t.stats.rungs = t.stats.rungsRead + t.stats.rungsFailed
  rungsOwned : t.stats.rungs = t.stats.rungsInPrograms + t.stats.rungsInAddOns
  examined : t.rungs.length = t.stats.rungsRead + t.rungErrors.length
  textsRead : t.stats.texts = t.stats.textsRead + t.stats.textsFailed
  textsOwned : t.stats.texts = t.stats.textsInPrograms + t.stats.textsInAddOns
  givenUp : t.stats.rungs + t.stats.texts =
    t.rungs.length + t.texts.length + t.limitFailures.length
  statements : t.stats.statements = (t.summaries.map Summary.statements).sum + statements
  references : t.references.length = (t.summaries.map Summary.references).sum + references
  tags : t.tagUses.keys = (t.references.map Reference.name).eraseDups
  tagsNodup : t.tagUses.keys.Nodup
  tagUses : ∀ tag, (t.tagUses.lookup tag).getD [] = t.references.filter (·.name == tag)
  tagSum : t.tagUses.weight List.length = t.references.length

/-- The counters agree while a routine is gone through. -/
def Visit.Balanced (v : Visit) : Prop :=
  v.tally.Balanced (v.tally.summaries.map Summary.language ++ [v.summary.language]) v.summary.rungs
    v.summary.statements v.summary.references

namespace Visit.Balanced

variable {v : Visit} {addOns : Keyed String}

/-- A further reference goes to the end of those to its tag. -/
theorem mention (h : v.Balanced) (r : Reference) : (v.mention r).Balanced where
  __ := h
  references := by
    have sum := h.references
    simp only [Visit.mention, List.length_append, List.length_singleton]
    omega
  tags := by
    simp only [Visit.mention, List.map_append, List.map_cons, List.map_nil, List.eraseDups_append,
      ← h.tags]
    have known : r.name ∈ v.tally.tagUses.keys ↔
        r.name ∈ v.tally.references.map Reference.name := by
      rw [h.tags, List.mem_eraseDups]
    -- a tag that has been mentioned before keeps its place
    by_cases old : r.name ∈ v.tally.tagUses.keys
    · rw [Keyed.keys_put_of_mem _ old]
      simp only [List.removeAll, List.filter_cons, List.filter_nil, List.elem_eq_mem, known.1 old,
        decide_true, Bool.not_true, Bool.false_eq_true, if_false, List.eraseDups_nil,
        List.append_nil]
    · rw [Keyed.keys_put_of_notMem _ old]
      simp only [List.removeAll, List.filter_cons, List.filter_nil, List.elem_eq_mem,
        mt known.2 old, decide_false, Bool.not_false, if_true, List.eraseDups_cons,
        List.eraseDups_nil]
  tagsNodup := Keyed.nodup_keys_put _ _ h.tagsNodup
  tagUses tag := by
    simp only [Visit.mention, Keyed.lookup_put, List.filter_append, ← h.tagUses]
    by_cases eq : tag = r.name
    · simp [eq]
    · simp [eq, Ne.symm eq]
  tagSum := by
    have put := Keyed.weight_put List.length h.tagsNodup r.name
      ((v.tally.tagUses.lookup r.name).getD [] ++ [r])
    have sum := h.tagSum
    simp only [Visit.mention, List.length_append, List.length_singleton] at put ⊢
    cases old : v.tally.tagUses.lookup r.name with
    | none =>
      simp only [old, Option.map_none, Option.getD_none, List.length_nil] at put ⊢
      omega
    | some rs =>
      simp only [old, Option.map_some, Option.getD_some] at put ⊢
      omega

theorem call (h : v.Balanced) (place : Place) (fromText : Bool) (name : String) :
    (v.call addOns place fromText name).Balanced := by
  unfold Visit.call
  cases addOns.lookup (Text.upper name) with
  | none => exact h
  | some addOn => exact { h with }

theorem use (h : v.Balanced) (place : Place) (i : Ladder.Instruction) :
    (v.use addOns place i).Balanced := by
  refine call ?_ place false i.mnemonic
  exact { h with }

theorem addRung (h : v.Balanced) (r : RungOutcome) : (v.addRung addOns r).Balanced := by
  have sum := h.rungs
  have owned := h.rungsOwned
  have known := h.rungsRead
  have examined := h.examined
  have givenUp := h.givenUp
  unfold Visit.addRung
  -- a rung that is given up, one with an error in it, and one that is read
  split
  · exact {
      h with
      rungs := by simp only [failRung, enterRung]; omega
      rungsRead := by simp only [failRung, enterRung]; omega
      rungsOwned := by simp only [failRung, enterRung]; split <;> omega
      givenUp := by
        simp only [failRung, enterRung, List.length_append, List.length_singleton]
        omega }
  · exact {
      h with
      rungs := by simp only [failRung, enterRung]; omega
      rungsRead := by simp only [failRung, enterRung]; omega
      rungsOwned := by simp only [failRung, enterRung]; split <;> omega
      examined := by
        simp only [failRung, enterRung, List.length_append, List.length_singleton]
        omega
      givenUp := by
        simp only [failRung, enterRung, List.length_append, List.length_singleton]
        omega }
  · next rung _ =>
    refine List.foldlRecOn (motive := Visit.Balanced) r.references _ ?_ fun _ h r _ => h.mention r
    refine List.foldlRecOn (motive := Visit.Balanced) rung.instructions _ ?_
      fun _ h i _ => h.use _ i
    exact {
      h with
      rungs := by simp only [readRung, enterRung]; omega
      rungsRead := by simp only [readRung, enterRung]; omega
      rungsOwned := by simp only [readRung, enterRung]; split <;> omega
      examined := by
        simp only [readRung, enterRung, List.length_append, List.length_singleton]
        omega
      givenUp := by
        simp only [readRung, enterRung, List.length_append, List.length_singleton]
        omega }

theorem addText (h : v.Balanced) (unread : v.summary.statements = 0) (place : Place)
    (result : Except LimitError TextOutcome) : (v.addText addOns place result).Balanced := by
  have owned := h.textsOwned
  have known := h.textsRead
  have givenUp := h.givenUp
  have sum := h.statements
  cases result with
  | error e => exact {
      h with
      textsRead := by simp only [Visit.addText, enterText]; omega
      textsOwned := by simp only [Visit.addText, enterText]; split <;> omega
      givenUp := by
        simp only [Visit.addText, enterText, List.length_append, List.length_singleton]
        omega }
  | ok t =>
    refine List.foldlRecOn (motive := Visit.Balanced) t.callees _ ?_ fun _ h n _ => h.call _ _ n
    refine List.foldlRecOn (motive := Visit.Balanced) t.references _ ?_ fun _ h r _ => h.mention r
    exact {
      h with
      textsRead := by simp only [enterText]; split <;> omega
      textsOwned := by simp only [enterText]; split <;> omega
      givenUp := by
        simp only [enterText, List.length_append, List.length_singleton]
        omega
      statements := by simp only [enterText]; omega }

end Visit.Balanced

namespace Tally.Balanced

variable {t : Tally} {addOns : Keyed String}

theorem enter (h : t.Balanced (t.summaries.map Summary.language) 0 0 0) (o : Outcome) :
    (t.enter o).Balanced where
  __ := h
  routines := by
    show t.stats.routines + 1 = (t.summaries.map Summary.language ++ [o.language]).length
    rw [List.length_append, ← h.routines]
    rfl
  languages := by
    show _ = Keyed.tally (t.summaries.map Summary.language ++ [o.language])
    rw [Keyed.tally_append_singleton, ← h.languages]
    rfl

/-- The summary at hand is listed with the others. -/
theorem leave {v : Visit} (h : v.Balanced) :
    Tally.Balanced { v.tally with summaries := v.tally.summaries ++ [v.summary] }
      ((v.tally.summaries ++ [v.summary]).map Summary.language) 0 0 0 := by
  have rungs := h.rungs
  have statements := h.statements
  have references := h.references
  rw [List.map_append]
  exact {
    h with
    rungs := by simp [rungs]
    statements := by simp [statements]
    references := by simp [references] }

theorem addOutcome (h : t.Balanced (t.summaries.map Summary.language) 0 0 0) (o : Outcome) :
    (t.addOutcome addOns o).Balanced ((t.addOutcome addOns o).summaries.map Summary.language)
      0 0 0 := by
  have entered := h.enter o
  unfold Tally.addOutcome
  split
  · next rungs _ =>
    exact leave (List.foldlRecOn (motive := Visit.Balanced) rungs _ entered
      fun _ h r _ => h.addRung r)
  · next result _ => exact leave (entered.addText rfl o.place result)
  · exact leave entered
  · exact leave entered

theorem initial : Tally.Balanced {} [] 0 0 0 := by
  constructor
  case tagsNodup => exact List.nodup_nil
  case tagUses => exact fun _ => rfl
  all_goals rfl

/-- After a whole walk the counters agree. -/
theorem ofOutcomes (os : List Outcome) :
    (Tally.ofOutcomes addOns os).Balanced
      ((Tally.ofOutcomes addOns os).summaries.map Summary.language) 0 0 0 :=
  List.foldlRecOn (motive := fun t : Tally => t.Balanced (t.summaries.map Summary.language) 0 0 0)
    os _ initial fun _ h o _ => h.addOutcome o

end Tally.Balanced

namespace Analysis

/-- The counters of an analysis agree with each other, with its lists and with its summaries. -/
structure AddsUp (x : Analysis) : Prop where
  rungsRead : x.stats.rungs = x.stats.rungsRead + x.stats.rungsFailed
  rungsOwned : x.stats.rungs = x.stats.rungsInPrograms + x.stats.rungsInAddOns
  rungs : x.stats.rungs = (x.summaries.map Summary.rungs).sum
  ladder : ∀ s ∈ x.summaries, s.language = "RLL" → s.rungs = s.read + s.errors
  examined : x.examinedRungs.length = x.stats.rungsRead + x.rungErrors.length
  givenUp : (x.stats.rungs - x.examinedRungs.length : Int) + (x.stats.texts - x.texts.length) =
    x.limitFailures.length
  limitFailures : x.limitFailures.length = x.stats.limitFailures
  textsRead : x.stats.texts = x.stats.textsRead + x.stats.textsFailed
  textsOwned : x.stats.texts = x.stats.textsInPrograms + x.stats.textsInAddOns
  routines : x.stats.routines = x.summaries.length
  languages : x.stats.routines = (x.stats.routinesByLanguage.map (·.2)).sum
  references : x.stats.references = x.references.length
  referencesSummed : x.stats.references = (x.summaries.map Summary.references).sum
  tagSum : x.stats.references = (x.tally.tagUses.map fun e => e.2.length).sum
  tagUses : ∀ tag, (x.tally.tagUses.lookup tag).getD [] = x.referencesTo tag
  tags : x.stats.tags = x.tally.tagUses.length
  tagsDistinct : x.stats.tags = x.tags.length
  statements : x.stats.statements = (x.summaries.map Summary.statements).sum
  instructions : x.stats.instructions = (x.instructionUsage.map (·.2)).sum

/-- In a ladder routine each rung has been read or not. -/
theorem summary_ladder (o : Outcome) (h : o.summary.language = "RLL") :
    o.summary.rungs = o.summary.read + o.summary.errors := by
  obtain ⟨owner, name, detail⟩ := o
  cases detail with
  | ladder rungs =>
    show rungs.length = rungs.countP RungOutcome.isRead + rungs.countP fun r => !r.isRead
    rw [List.length_eq_countP_add_countP RungOutcome.isRead]
    simp
  | text result =>
    have other : "ST" = "RLL" := h
    exact absurd other (by decide)
  | blockDiagram =>
    have other : "FBD" = "RLL" := h
    exact absurd other (by decide)
  | chart =>
    have other : "SFC" = "RLL" := h
    exact absurd other (by decide)

theorem addsUp (x : Analysis) : x.AddsUp := by
  -- the walk is balanced at its end, and its lists are those of the analysis
  have balanced : x.tally.Balanced (x.tally.summaries.map Summary.language) 0 0 0 :=
    Tally.Balanced.ofOutcomes x.outcomes
  have lists := x.findings_tally
  have summaries : x.tally.summaries = x.summaries := congrArg Findings.summaries lists
  have rungs : x.tally.rungs = x.examinedRungs := congrArg Findings.rungs lists
  have rungErrors : x.tally.rungErrors = x.rungErrors := congrArg Findings.rungErrors lists
  have texts : x.tally.texts = x.texts := congrArg Findings.texts lists
  have references : x.tally.references = x.references := congrArg Findings.references lists
  have limitFailures : x.tally.limitFailures = x.limitFailures :=
    congrArg Findings.limitFailures lists
  have givenUp := balanced.givenUp
  have tagUses := balanced.tagUses
  rw [rungs, texts, limitFailures] at givenUp
  simp only [references] at tagUses
  constructor
  case rungsRead => exact balanced.rungsRead
  case rungsOwned => exact balanced.rungsOwned
  case rungs => exact summaries ▸ balanced.rungs
  case ladder =>
    intro s hs
    obtain ⟨o, -, rfl⟩ := List.mem_map.1 hs
    exact summary_ladder o
  case examined =>
    rw [← rungs, ← rungErrors]
    exact balanced.examined
  case givenUp =>
    have : x.stats.rungs = x.tally.stats.rungs := rfl
    have : x.stats.texts = x.tally.stats.texts := rfl
    omega
  case limitFailures =>
    rw [← limitFailures]
    rfl
  case textsRead => exact balanced.textsRead
  case textsOwned => exact balanced.textsOwned
  case routines => rw [← summaries, ← List.length_map Summary.language]; exact balanced.routines
  case languages =>
    refine balanced.routines.trans ?_
    rw [← (Keyed.weight_tally _).2, ← balanced.languages]
    rfl
  case references =>
    rw [← references]
    rfl
  case referencesSummed => exact summaries ▸ balanced.references
  case tagSum => exact balanced.tagSum.symm
  case tagUses => exact tagUses
  case tags => rfl
  case tagsDistinct =>
    rw [tags, Text.inOrder, List.length_mergeSort, ← references, ← balanced.tags]
    exact (List.length_map _).symm
  case statements => exact summaries ▸ balanced.statements
  case instructions =>
    rw [← usage_tally, List.sum_eq_foldl, List.foldl_map]
    rfl

end Analysis

/-! ### Whole analyses -/

theorem Routine.outcome_named {limits : Limits} {config : SmellConfig} {owner : Owner} {r : Routine}
    {o : Outcome} (h : r.outcome limits config owner = .ok o) :
    o.owner = owner.name ∧ o.name = r.name := by
  obtain ⟨name, code⟩ := r
  cases code with
  | ladder rungs =>
    obtain ⟨outcomes, -, same⟩ := bind_eq_ok h
    cases same
    exact ⟨rfl, rfl⟩
  | text lines =>
    obtain ⟨t, -, same⟩ := bind_eq_ok h
    cases same
    exact ⟨rfl, rfl⟩
  | blockDiagram | chart =>
    cases h
    exact ⟨rfl, rfl⟩

theorem Site.findings_named {limits : Limits} {config : SmellConfig} {addOns : Keyed String}
    (s : Site) (f : Findings) (h : s.findings limits config addOns = .ok f) :
    f.summaries.map (fun y => (y.owner, y.name)) = [(s.owner, s.routine.name)] := by
  obtain ⟨o, given, rfl⟩ := map_eq_ok h
  obtain ⟨owner, name⟩ := Routine.outcome_named given
  exact congrArg₂ (fun owner name => [(owner, name)]) owner name

/-- An analysis has one summary for each routine. -/
theorem summaries_of_analyze {c : Controller} {limits : Limits} {config : SmellConfig}
    {x : Analysis} (h : c.analyze limits config = .ok x) :
    x.summaries.map (fun y => (y.owner, y.name)) =
      c.sites.map fun s => (s.owner, s.routine.name) := by
  obtain ⟨fs, given, listed⟩ := analyze_eq_ok h
  have summaries : x.summaries = fs.flatMap Findings.summaries := congrArg Findings.summaries listed
  have named := congrArg List.flatten (mapM_map_eq Site.findings_named given)
  rw [summaries, List.map_flatMap, List.flatMap_def, named, ← List.flatMap_def,
    List.map_eq_flatMap]

/-- The counters of every analysis add up, and every routine is counted. -/
theorem addsUp_of_analyze {c : Controller} {limits : Limits} {config : SmellConfig} {x : Analysis}
    (h : c.analyze limits config = .ok x) :
    x.AddsUp ∧ x.stats.routines = c.sites.length := by
  refine ⟨x.addsUp, x.addsUp.routines.trans ?_⟩
  have named := congrArg List.length (summaries_of_analyze h)
  rwa [List.length_map, List.length_map] at named

/-- Rungs and texts that can be read, that cannot, and that pass a limit, in a program and in an
added instruction that the program calls. -/
def mixed : Controller where
  name := "C"
  programs := [{
    name := "P"
    routines := [
      ⟨"Rungs", .ladder [⟨0, some "XIC(a)OTE(b);", none⟩, ⟨1, some "XIC(a", none⟩,
        ⟨2, some "XIC(a)XIC(b)OTE(c);", none⟩, ⟨3, some "Twice(t,a);", none⟩]⟩,
      ⟨"Short", .text ["a := b;"]⟩, ⟨"Broken", .text ["a := ;"]⟩,
      ⟨"Long", .text ["a := b + b + b;"]⟩, ⟨"Chart", .chart⟩] }]
  addOns := [{
    name := "Twice"
    routines := [⟨"Logic", .ladder [⟨0, some "OTE(d);", none⟩, ⟨1, some "]", none⟩]⟩] }]

theorem mixed_addsUp : ∃ x, mixed.analyze { maxInputSize := 14 } = .ok x ∧ x.AddsUp ∧
    x.stats.routines = 6 := by
  obtain ⟨x, h⟩ : ∃ x, mixed.analyze { maxInputSize := 14 } = .ok x :=
    analyze_returns_iff.2 (by decide +kernel)
  exact ⟨x, h, addsUp_of_analyze h⟩

end Plc.Controller

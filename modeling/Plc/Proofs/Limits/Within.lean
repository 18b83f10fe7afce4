/-
What a reading returns is within the limits.

Lists and strings are checked on the way (`Ensures`), nodes are paid for (`Builds`), and a branch
or loop stands inside a construct that leaves fewer levels for what is inside it; the expression
that belongs to it takes one of these.  What is thrown away after an error only leaves more room.

* `Stmt.Within` — one statement is within the limits, and nested no deeper than given;
* `statement_ensures`, `allStatements_ensures` — every rule for statements keeps to that;
* `Affords`, `affords` — a count of nodes that is allowed stays allowed, unless a bound ends the
  reading;
* `Reading.within_limits` — what follows for whole texts.
-/
import Plc.Proofs.Limits.Raised
import Plc.Proofs.Limits.Sizes
import Plc.Proofs.NodeCount.Stmt
import Plc.Flow.Complexity
import Plc.Proofs.Fallible

namespace Plc

open Grammar

/-! ### Statements within limits -/

/-- Everything in the statement fits, and its branches and loops nest at most so deep. -/
def Stmt.Within (l : Limits) (depth : Nat) (t : Stmt) : Prop :=
  Fit l t.nodes ∧ Flow.nestingOf t ≤ depth

/-- The list is no longer than allowed, and every statement in it is within the limits. -/
def Stmt.AllWithin (l : Limits) (depth : Nat) (ts : List Stmt) : Prop :=
  Ensures.Items l (Stmt.Within l depth) 0 ts

/-- Everything in the branch fits, and what is inside it nests at most so deep. -/
def IfBranch.Within (l : Limits) (depth : Nat) (b : IfBranch) : Prop :=
  Fit l b.nodes ∧ Flow.nesting b.body ≤ depth

/-- Everything in the branch fits, and what is inside it nests at most so deep. -/
def CaseBranch.Within (l : Limits) (depth : Nat) (b : CaseBranch) : Prop :=
  Fit l b.nodes ∧ Flow.nesting b.body ≤ depth

variable {l : Limits} {depth : Nat}

theorem Flow.nesting_le {ts : List Stmt} :
    Flow.nesting ts ≤ depth ↔ ∀ t ∈ ts, Flow.nestingOf t ≤ depth := by
  induction ts with
  | nil => simp
  | cons t ts ih => rw [nesting_cons, Nat.max_le, ih, List.forall_mem_cons]

theorem Flow.nestingOfElsifs_le {bs : List IfBranch} :
    Flow.nestingOfElsifs bs ≤ depth ↔ ∀ b ∈ bs, Flow.nesting b.body ≤ depth := by
  induction bs with
  | nil => simp
  | cons b bs ih => rw [nestingOfElsifs_cons, Nat.max_le, ih, List.forall_mem_cons]

theorem Flow.nestingOfBranches_le {bs : List CaseBranch} :
    Flow.nestingOfBranches bs ≤ depth ↔ ∀ b ∈ bs, Flow.nesting b.body ≤ depth := by
  induction bs with
  | nil => simp
  | cons b bs ih => rw [nestingOfBranches_cons, Nat.max_le, ih, List.forall_mem_cons]

namespace Stmt.AllWithin

variable {ts : List Stmt}

theorem fit (h : AllWithin l depth ts) : Fit l (Stmt.nodesAll ts) := by
  rw [← Stmt.flatMap_nodes, fit_flatMap]
  exact fun t ht => (h.1 t ht).1

theorem nesting (h : AllWithin l depth ts) : Flow.nesting ts ≤ depth :=
  Flow.nesting_le.2 fun t ht => (h.1 t ht).2

end Stmt.AllWithin

/-- The statements after `ELSE` are none where there is no `ELSE`. -/
theorem Stmt.ifThen_within {s : Span} {first : IfBranch} {elsifs : List IfBranch}
    {otherwise : Option (List Stmt)} (hfirst : first.Within l depth)
    (helsifs : Ensures.Items l (IfBranch.Within l depth) 0 elsifs)
    (ho : AllWithin l depth (otherwise.getD [])) :
    (Stmt.ifThen s first elsifs otherwise).Within l (depth + 1) := by
  obtain ⟨place, condition, body⟩ := first
  obtain ⟨fits, deep⟩ := hfirst
  change Flow.nesting body ≤ depth at deep
  simp only [IfBranch.nodes, IfBranch.nodesAll, List.append_nil, fit_cons, fit_append] at fits
  have others : Fit l (IfBranch.nodesAll elsifs) := by
    rw [← IfBranch.flatMap_nodes, fit_flatMap]
    exact fun b hb => (helsifs.1 b hb).1
  have nested := Flow.nestingOfElsifs_le.2 fun b hb => (helsifs.1 b hb).2
  have whole : (Node.stmt (.ifThen s (.mk place condition body) elsifs otherwise)).Fits l :=
    fits_lists helsifs.few ho.few rfl rfl
  have last := ho.fit
  have below := ho.nesting
  -- The nodes of the statement are listed by cases on its `ELSE` part, its nesting is not.
  refine ⟨?_, ?_⟩
  · cases otherwise with
    | none => simp [nodes, whole, fits, others]
    | some ss =>
      rw [Option.getD_some] at last
      simp [nodes, whole, fits, others, last]
  · rw [Flow.nestingOf_ifThen]
    omega

theorem Stmt.caseOf_within {s : Span} {selector : Expr} {branches : List CaseBranch}
    {otherwise : Option (List Stmt)} (hsel : Fit l selector.nodes)
    (hbranches : Ensures.Items l (CaseBranch.Within l depth) 0 branches)
    (ho : AllWithin l depth (otherwise.getD [])) :
    (Stmt.caseOf s selector branches otherwise).Within l (depth + 1) := by
  have others : Fit l (CaseBranch.nodesAll branches) := by
    rw [← CaseBranch.flatMap_nodes, fit_flatMap]
    exact fun b hb => (hbranches.1 b hb).1
  have nested := Flow.nestingOfBranches_le.2 fun b hb => (hbranches.1 b hb).2
  have whole : (Node.stmt (.caseOf s selector branches otherwise)).Fits l :=
    fits_lists hbranches.few ho.few rfl rfl
  have last := ho.fit
  have below := ho.nesting
  refine ⟨?_, ?_⟩
  · cases otherwise with
    | none => simp [nodes, whole, hsel, others]
    | some ss =>
      rw [Option.getD_some] at last
      simp [nodes, whole, hsel, others, last]
  · rw [Flow.nestingOf_caseOf]
    omega

namespace Grammar

variable {e : Rule Expr} {st : Rule Stmt} {levels : Nat}

/-! ### Simple statements -/

/-- A statement that is no branch or loop. -/
theorem within_plain {t : Stmt} (h : Fit l t.nodes) (flat : Flow.nestingOf t = 0) :
    t.Within l depth :=
  ⟨h, flat ▸ Nat.zero_le _⟩

section Simple

variable (positive : 0 < l.maxCollectionSize) (he : EnsuresFit l e)
include he

theorem leaveStmt_ensures : Ensures l (leaveStmt e) (Stmt.Within l depth) := by
  refine .skip fun t => .skip fun next => ?_
  have rest (value : Option Expr) (h : Fit l (Expr.nodesOpt value)) :
      Ensures l (do
        expectSemicolon
        node t.span fun s => .leave s value) (Stmt.Within l depth) :=
    .skip fun _ => .node fun span => within_plain (fit_cons.2 ⟨fits_plain rfl rfl, h⟩) rfl
  exact .ite (Ensures.bind (.pure fit_nil) rest) (Ensures.bind (he.map fun _ h => h) rest)

include positive

theorem assignmentOrCall_ensures : Ensures l (assignmentOrCall e) (Stmt.Within l depth) := by
  refine .skip fun start => (variableWith_ensures positive he).bind fun target htarget => ?_
  refine .skip fun b => .ite ?_ (.skip fun next => ?_)
  · split
    · exact .skip fun _ => .throw _
    · refine (callArgs_ensures positive he).bind fun args h => .skip fun declared => .ite ?_ ?_
      · refine .skip fun _ => .node fun span => within_plain ?_ rfl
        exact fit_cons.2 ⟨fits_list h.2 rfl rfl, fit_append.2 ⟨htarget, h.1⟩⟩
      · refine .skip fun callSpan => .skip fun _ => .node fun span => within_plain ?_ rfl
        exact fit_cons.2 ⟨fits_plain rfl rfl, fit_cons.2 ⟨fits_list h.2 rfl rfl, h.1⟩⟩
  · split
    · exact .failExpecting _
    · refine .skip fun _ => he.bind fun value hvalue => .skip fun _ => .node fun span => ?_
      exact within_plain (fit_cons.2 ⟨fits_plain rfl rfl, fit_append.2 ⟨htarget, hvalue⟩⟩) rfl

theorem plainStmt_ensures : Ensures l (plainStmt e) (Stmt.Within l depth) := by
  refine .skip fun t => .ite ?_ (.skip fun d => .skip fun next => .ite ?_ ?_)
  · exact .skip fun _ => .node fun span => within_plain (fit_cons.2 ⟨fits_plain rfl rfl, fit_nil⟩) rfl
  · refine .skip fun _ => .skip fun _ => .node fun span => ?_
    exact within_plain (fit_cons.2 ⟨fits_plain rfl rfl, fit_nil⟩) rfl
  · exact .ite (assignmentOrCall_ensures positive he) (.failInvalid _)

end Simple

theorem oneWord_ensures {build : Span → Stmt} (h : ∀ span, (build span).Within l depth) :
    Ensures l (oneWord build) (Stmt.Within l depth) :=
  .skip fun _ => .skip fun _ => .node h

theorem gotoStmt_ensures : Ensures l gotoStmt (Stmt.Within l depth) :=
  .skip fun _ => .skip fun _ => .skip fun _ => .node fun _ =>
    within_plain (fit_cons.2 ⟨fits_plain rfl rfl, fit_nil⟩) rfl

/-! ### Lists of statements -/

theorem statementListUntil_ensures {stop : Rule Bool} (hs : Ensures l st (Stmt.Within l depth)) :
    Ensures l (statementListUntil stop st) (Stmt.AllWithin l depth) := by
  refine .skip fun n => .many (fun size room => ?_) n (Nat.zero_le _)
  refine (Ensures.recovering hs).bind fun o ho => ?_
  -- A statement that is given up after an error adds nothing to the list.
  split
  · next t =>
    refine (Ensures.checkSize _ _).bind fun _ within => .pure ⟨?_, within⟩
    exact List.forall_mem_singleton.2 (ho t rfl)
  · exact .pure ⟨List.forall_mem_nil _, room⟩

theorem checkSizes_ensures (size : Nat) (ts : List Stmt) (room : size ≤ l.maxCollectionSize) :
    Ensures l (checkSizes size ts) fun _ => size + ts.length ≤ l.maxCollectionSize := by
  induction ts generalizing size with
  | nil => exact .pure room
  | cons t ts ih =>
    refine (Ensures.checkSize _ _).bind fun _ within => (ih (size + 1) within).imp fun _ h => ?_
    rw [List.length_cons]
    omega

/-- The statements after stray tokens are checked to be no more than there is room for. -/
theorem bodyWith_ensures (hs : Ensures l st (Stmt.Within l depth)) (ends : List Keyword) :
    Ensures l (bodyWith st ends) (Stmt.AllWithin l depth) := by
  refine (statementListUntil_ensures hs).bind fun first hfirst => .skip fun n => ?_
  -- The statements after a stray token were read as a list of their own, with room for as many as
  -- there may be in all; so they are counted again from `size` on.
  have later (size : Nat) (room : size ≤ l.maxCollectionSize) :
      Ensures l (afterStray st ends size) (Ensures.Items l (Stmt.Within l depth) size) := by
    refine .skip fun e => .skip fun _ => .skip fun _ => .skip fun _ => ?_
    refine (statementListUntil_ensures hs).bind fun ts hts => ?_
    exact (checkSizes_ensures size ts room).bind fun _ within => .pure ⟨hts.1, within⟩
  refine (Ensures.many later n hfirst.few).bind fun others h => .pure ?_
  refine ⟨List.forall_mem_append.2 ⟨hfirst.1, h.1⟩, ?_⟩
  rw [List.length_append, Nat.zero_add]
  exact h.2

/-! ### Constructs -/

section Constructs

variable (positive : 0 < l.maxCollectionSize)
variable (he : Ensures l e fun x => Fit l x.nodes ∧ 0 < levels)
variable (hs : Ensures l st (Stmt.Within l (levels - 1)))

include hs

theorem elseBody_ensures :
    Ensures l (elseBody st) fun o => Stmt.AllWithin l (levels - 1) (o.getD []) := by
  refine .skip fun b => .ite ?_ (.pure ⟨nofun, Nat.zero_le _⟩)
  exact (statementListUntil_ensures hs).map fun _ h => h

/-- A region is no branch, and takes no level of its own. -/
theorem regionStmt_ensures : Ensures l (regionStmt st) (Stmt.Within l levels) := by
  refine .skip fun t => .skip fun (title, lineEnd) => .skip fun _ => ?_
  refine (statementListUntil_ensures hs).bind fun body h => .skip fun _ => .node fun span => ?_
  exact ⟨fit_cons.2 ⟨fits_list h.few rfl rfl, h.fit⟩, Nat.le_trans h.nesting (Nat.sub_le ..)⟩

include he

theorem ifBranch_ensures (opener : Token) :
    Ensures l (ifBranch e st opener) fun b => b.Within l (levels - 1) ∧ 0 < levels := by
  refine he.bind fun x hx => .skip fun _ => ?_
  refine (statementListUntil_ensures hs).bind fun body h => .node fun span => ?_
  refine ⟨⟨?_, h.nesting⟩, hx.2⟩
  simpa [IfBranch.nodes, IfBranch.nodesAll] using ⟨fits_list h.few rfl rfl, hx.1, h.fit⟩

theorem ifStmt_ensures : Ensures l (ifStmt e st) (Stmt.Within l levels) := by
  refine .skip fun t => (ifBranch_ensures he hs t).bind fun first hfirst => .skip fun n => ?_
  have item (size : Nat) : Ensures l (do
      let opener ← advance
      let branch ← ifBranch e st opener
      checkSize (size + 1) branch.span
      return [branch]) (Ensures.Items l (IfBranch.Within l (levels - 1)) size) := by
    refine .skip fun opener => (ifBranch_ensures he hs opener).bind fun b hb => ?_
    refine (Ensures.checkSize _ _).bind fun _ within => .pure ⟨?_, within⟩
    exact List.forall_mem_singleton.2 hb.1
  refine (Ensures.many (fun size _ => item size) n (Nat.zero_le _)).bind fun elsifs h => ?_
  refine (elseBody_ensures hs).bind fun otherwise ho => .skip fun _ => .node fun span => ?_
  -- A condition was read, so at least one level was left for the statement itself.
  rw [← Nat.sub_add_cancel hfirst.2]
  exact Stmt.ifThen_within hfirst.1 h ho

omit hs in
theorem caseSelector_ensures : Ensures l (caseSelector e) fun k => Fit l k.nodes := by
  refine .skip fun start => he.bind fun low hlow => .skip fun b => .ite ?_ ?_
  · refine he.bind fun high hhigh => .node fun span => ?_
    exact fit_cons.2 ⟨fits_plain rfl rfl, fit_append.2 ⟨hlow.1, hhigh.1⟩⟩
  · exact .node fun span => fit_cons.2 ⟨fits_plain rfl rfl, hlow.1⟩

theorem forStmt_ensures : Ensures l (forStmt e st) (Stmt.Within l levels) := by
  refine .skip fun t => .skip fun d => ?_
  -- The step may be missing, so what comes behind it is settled for either case at once.
  have rest (control : Token) (start stop : Expr) (hstart : Fit l start.nodes)
      (hstop : Fit l stop.nodes) (opens : 0 < levels) (step : Option Expr)
      (hstep : Fit l (Expr.nodesOpt step)) : Ensures l (do
        let _ ← expect Keyword.DO
        let body ← statementList st
        endConstruct .END_FOR t.span
        node t.span fun s => .forLoop s control.nameText start stop step body)
      (Stmt.Within l levels) := by
    refine .skip fun _ => (statementListUntil_ensures hs).bind fun body h => .skip fun _ => ?_
    refine .node fun span => ⟨fit_cons.2 ⟨fits_list h.few rfl rfl, ?_⟩, ?_⟩
    · simp [hstart, hstop, hstep, h.fit]
    · have deep := h.nesting
      rw [Flow.nestingOf_forLoop]
      omega
  have loop : Ensures l (do
      let control ← expectAnyName "loop variable"
      let _ ← expect Mark.assign
      let start ← e
      let _ ← expect Keyword.TO
      let stop ← e
      let step ← if ← accept Keyword.BY then some <$> e else pure none
      let _ ← expect Keyword.DO
      let body ← statementList st
      endConstruct .END_FOR t.span
      node t.span fun s => .forLoop s control.nameText start stop step body)
      (Stmt.Within l levels) := by
    refine .skip fun control => .skip fun _ => he.bind fun start hstart => .skip fun _ => ?_
    refine he.bind fun stop hstop => .skip fun b => ?_
    have after := rest control start stop hstart.1 hstop.1 hstart.2
    exact .optional (he.imp fun _ h => h.1) fit_nil after
  exact .ite (.skip fun _ => loop) loop

theorem whileStmt_ensures : Ensures l (whileStmt e st) (Stmt.Within l levels) := by
  refine .skip fun t => he.bind fun x hx => .skip fun _ => ?_
  refine (statementListUntil_ensures hs).bind fun body h => .skip fun _ => .node fun span => ?_
  refine ⟨fit_cons.2 ⟨fits_list h.few rfl rfl, fit_append.2 ⟨hx.1, h.fit⟩⟩, ?_⟩
  have deep := h.nesting
  rw [Flow.nestingOf_whileLoop]
  omega

theorem repeatStmt_ensures : Ensures l (repeatStmt e st) (Stmt.Within l levels) := by
  refine .skip fun t => (statementListUntil_ensures hs).bind fun body h => .skip fun _ => ?_
  refine he.bind fun x hx => .skip fun _ => .skip fun _ => .node fun span => ?_
  refine ⟨fit_cons.2 ⟨fits_list h.few rfl rfl, fit_append.2 ⟨h.fit, hx.1⟩⟩, ?_⟩
  have deep := h.nesting
  rw [Flow.nestingOf_repeatLoop]
  omega

include positive

theorem caseBranch_ensures : Ensures l (caseBranch e st) (CaseBranch.Within l (levels - 1)) := by
  refine .skip fun start => ?_
  refine (Ensures.commaList positive (caseSelector_ensures he)).bind fun selectors hsel => ?_
  refine .skip fun _ => (statementListUntil_ensures hs).bind fun body h => .node fun span => ?_
  refine ⟨?_, h.nesting⟩
  simpa [CaseBranch.nodes, CaseBranch.nodesAll, fit_flatMap] using
    ⟨fits_lists hsel.few h.few rfl rfl, hsel.1, h.fit⟩

theorem caseStmt_ensures : Ensures l (caseStmt e st) (Stmt.Within l levels) := by
  refine .skip fun t => he.bind fun selector hsel => .skip fun _ => .skip fun n => ?_
  have item (size : Nat) : Ensures l (do
      let branch ← caseBranch e st
      checkSize (size + 1) branch.span
      return [branch]) (Ensures.Items l (CaseBranch.Within l (levels - 1)) size) := by
    refine (caseBranch_ensures positive he hs).bind fun b hb => ?_
    refine (Ensures.checkSize _ _).bind fun _ within => .pure ⟨?_, within⟩
    exact List.forall_mem_singleton.2 hb
  refine (Ensures.many (fun size _ => item size) n (Nat.zero_le _)).bind fun branches h => ?_
  refine (elseBody_ensures hs).bind fun otherwise ho => .skip fun _ => .node fun span => ?_
  rw [← Nat.sub_add_cancel hsel.2]
  exact Stmt.caseOf_within hsel.1 h ho

/-! ### One statement -/

theorem statementBody_ensures : Ensures l (statementBody e st) (Stmt.Within l levels) := by
  have fits : EnsuresFit l e := he.imp fun _ h => h.1
  refine .skip fun next => ?_
  split
  · exact ifStmt_ensures he hs
  · exact caseStmt_ensures positive he hs
  · exact forStmt_ensures he hs
  · exact whileStmt_ensures he hs
  · exact repeatStmt_ensures he hs
  · exact oneWord_ensures fun _ => within_plain (fit_cons.2 ⟨fits_plain rfl rfl, fit_nil⟩) rfl
  · exact oneWord_ensures fun _ => within_plain (fit_cons.2 ⟨fits_plain rfl rfl, fit_nil⟩) rfl
  · exact leaveStmt_ensures fits
  · exact gotoStmt_ensures
  · exact regionStmt_ensures hs
  · exact plainStmt_ensures positive fits

end Constructs

/-- A statement that may open some constructs nests one less deep. -/
theorem statement_ensures (positive : 0 < l.maxCollectionSize) (levels : Nat) :
    Ensures l (statement levels) (Stmt.Within l (levels - 1)) := by
  induction levels with
  | zero => exact .tooDeep
  | succ levels ih =>
    exact .nested (statementBody_ensures positive
      ((expression_ensures positive levels).and (expression_opens levels)) ih)

theorem allStatements_ensures (positive : 0 < l.maxCollectionSize) (levels : Nat)
    (declared : List String) :
    Ensures l (allStatements levels declared) (Stmt.AllWithin l (levels - 1)) := by
  refine Ensures.bind (.declaring declared (bodyWith_ensures (statement_ensures positive levels) [])) ?_
  exact fun ss h => .skip fun _ => .pure h

/-! ### Counted nodes -/

variable {α β : Type}

/-- Unless a bound ends the run, a count of nodes that is allowed before it is allowed after it. -/
def Affords (r : Rule α) : Prop :=
  ∀ s c, c.usage.nodes ≤ s.limits.maxNodes → Settled (r s c) →
    (cursorAfter (r s c)).usage.nodes ≤ s.limits.maxNodes

/-- Opening and closing constructs counts nothing, and a count that is refused ends the reading. -/
theorem Affords.passage : Passage fun s c c' =>
    c.usage.nodes ≤ s.limits.maxNodes → c'.usage.nodes ≤ s.limits.maxNodes where
  refl _ _ := id
  trans first second := second ∘ first
  nested inside := inside
  declaring _ inside := inside
  count _ _ allowed _ := allowed
  advance s c := by
    obtain ⟨rest, _, _, _, _, _, _⟩ := c
    cases rest <;> exact id
  take _ _ _ _ := id
  note _ _ _ := id

theorem affords_iff {r : Rule α} : Affords r ↔ Arrives (fun s c c' =>
    c.usage.nodes ≤ s.limits.maxNodes → c'.usage.nodes ≤ s.limits.maxNodes) r :=
  ⟨fun h s c settled allowed => h s c allowed settled,
    fun h s c allowed settled => h s c settled allowed⟩

theorem Affords.bind {r : Rule α} {f : α → Rule β} (hr : Affords r) (hf : ∀ a, Affords (f a)) :
    Affords (r >>= f) :=
  affords_iff.2 (passage.bind (affords_iff.1 hr) fun a => affords_iff.1 (hf a))

/-- No rule lets the count of nodes pass its bound and goes on. -/
theorem affords : GrammarCongruence fun _ _ (r : Rule _) => Affords r := by
  have same : (fun ⦃α : Type⦄ (_ r : Rule α) => Affords r) = fun ⦃_⦄ _ r => Arrives _ r :=
    funext fun _ => funext fun _ => funext fun _ => propext affords_iff
  rw [same]
  exact Affords.passage.grammar

/-! ### Whole texts -/

theorem utf8Size_le {d : Dialect} {source : List Char} {ts : List Token}
    (h : tokensWithin l d source = .ok ts) : utf8Size source ≤ l.maxInputSize := by
  unfold tokensWithin at h
  cases size : l.check .inputSize (utf8Size source) with
  | ok _ => exact Limits.check_eq_ok_iff.1 size
  | error e =>
    rw [size] at h
    cases h

theorem length_tokens_le {d : Dialect} {source : List Char} {ts : List Token}
    (h : tokensWithin l d source = .ok ts) : ts.length ≤ l.maxIterations := by
  unfold tokensWithin at h
  split at h
  · cases h
  · dsimp only at h
    split at h
    · cases h
    · next none =>
      split at h
      · cases h
      · cases h
        exact List.drop_eq_nil_iff.1 none

/-- What a rule counts is no more than a bound allows. -/
theorem length_le {r : Rule α} {made : α → List Node} (counts : Counts r made) (pays : Affords r)
    {s : Setting} {ts : List Token} {a : α} {c : Cursor} (hrun : r s (.before ts) = .ok a c) :
    (made a).length ≤ s.limits.maxNodes := by
  -- Before the first token nothing is counted and nothing has to be paid for.
  have start : Paid ByNumber 0 [] s (.before ts) := ⟨[], Nat.le_refl _, Nat.zero_le _⟩
  obtain ⟨bought, covers, paid⟩ := counts 0 start hrun
  have bound := pays s (.before ts) (Nat.zero_le _)
  rw [hrun] at bound
  have allowed : c.usage.nodes ≤ s.limits.maxNodes := bound (.ok a c)
  unfold ByNumber at covers
  omega

/-- The nodes are those of the statements alone: the end of the text makes none. -/
theorem allStatements_counts (levels : Nat) (declared : List String) :
    Counts (allStatements levels declared) Stmt.nodesAll := by
  refine Builds.bind (.declaring declared (body_builds _ [])) fun ss => ?_
  exact Builds.bind (.of_countsUp countsUp.finishText_rel) fun _ => .same rfl

end Grammar

namespace Reading

/-- What holds of a text within the limits, and of the nodes it is read as. -/
structure Bounds (r : Reading) (ns : List Node) : Prop where
  inputSize : utf8Size r.source ≤ r.limits.maxInputSize
  /-- The end of the text and the annotations are tokens, too. -/
  iterations : ∃ ts, tokens r.dialect r.source = .ok ts ∧ ts.length ≤ r.limits.maxIterations
  nodes : ns.length ≤ r.limits.maxNodes
  /-- Lists and strings. -/
  fit : Fit r.limits ns

variable {r : Reading} {recovers : Bool} {errors : List SyntaxError}

theorem run_bounds {α : Type} {rule : Rule α} {made : α → List Node} {P : α → Prop}
    (counts : Counts rule made) (pays : Affords rule) (gives : Ensures r.limits rule P)
    (fit : ∀ a, P a → Fit r.limits (made a)) {a : α}
    (h : run rule r.source r.limits r.dialect recovers = .ok (a, errors)) :
    r.Bounds (made a) ∧ P a := by
  obtain ⟨ts, c, cut, hrun, -⟩ := run_eq_ok_iff.1 h
  have known : P a := gives rfl hrun
  exact ⟨⟨utf8Size_le cut, ⟨ts, tokens_of_tokensWithin cut, length_tokens_le cut⟩,
    length_le counts pays hrun, fit a known⟩, known⟩

/-- What the statements of a text keep to: bounds on the text and on the nodes, the length of the
list itself, and the nesting of branches and loops. -/
structure StmtBounds (r : Reading) (ss : List Stmt) : Prop extends r.Bounds (Stmt.nodesAll ss) where
  collectionSize : ss.length ≤ r.limits.maxCollectionSize
  nesting : Flow.nesting ss ≤ r.limits.maxDepth - 1

theorem collectionSize_pos {l : Limits} (positive : l.isPositive = true) :
    0 < l.maxCollectionSize := by
  have all := List.all_eq_true.1 positive .collectionSize (by simp)
  exact of_decide_eq_true all

theorem run_stmtBounds (positive : r.limits.isPositive = true) {declared : List String}
    {ss : List Stmt} (h : run (allStatements r.limits.maxDepth declared) r.source r.limits
      r.dialect recovers = .ok (ss, errors)) : r.StmtBounds ss := by
  have counts := allStatements_counts r.limits.maxDepth declared
  have within := allStatements_ensures (collectionSize_pos positive) r.limits.maxDepth declared
  obtain ⟨bounds, all⟩ := run_bounds counts (affords.allStatements_rel (.refl _) declared) within
    (fun _ => Stmt.AllWithin.fit) h
  exact ⟨bounds, all.few, all.nesting⟩

/-- Whatever is read is inside the limits.  In every dialect, with any names declared, and whether
errors end the reading or are recovered from: the text is no larger than allowed and has no more
tokens; there are no more nodes; no list is longer and no string has more characters; and branches
and loops nest less deep than constructs may. -/
theorem within_limits (r : Reading) (positive : r.limits.isPositive = true)
    (declared : List String) :
    (∀ e, r.expression = .ok e → r.Bounds e.nodes) ∧
      (∀ ss, r.statements declared = .ok ss → r.StmtBounds ss) ∧
      ∀ ss errors, r.statementsRecovering declared = .ok (ss, errors) → r.StmtBounds ss := by
  refine ⟨fun e h => ?_, fun ss h => ?_, fun ss errors h => run_stmtBounds positive h⟩
  · obtain ⟨errors, hrun⟩ := strictly_eq_ok_iff.1 h
    have counts : Counts (whole Grammar.expression r.limits.maxDepth) Expr.nodes := by
      refine Builds.bind (expression_builds _) fun e => ?_
      exact Builds.bind (.of_countsUp countsUp.expectEnd_rel) fun _ => .same rfl
    have pays : Affords (whole Grammar.expression r.limits.maxDepth) :=
      Affords.bind (affords.expression_rel (.refl _)) fun e =>
        Affords.bind affords.expectEnd_rel fun _ => affords.pure e
    have fits : EnsuresFit r.limits (whole Grammar.expression r.limits.maxDepth) :=
      Ensures.bind (expression_ensures (collectionSize_pos positive) _) fun e he =>
        .skip fun _ => .pure he
    exact (run_bounds counts pays fits (fun _ h => h) hrun).1
  · obtain ⟨errors, hrun⟩ := strictly_eq_ok_iff.1 h
    exact run_stmtBounds positive hrun

/-- The lowest limits under which a loop is read around which one statement has an error. -/
def lowLimits : Limits where
  maxInputSize := 50
  maxIterations := 22
  maxDepth := 3
  maxCollectionSize := 2
  maxNodes := 12
  maxStringLength := 2

/-- A call and an element. -/
def smallExpression : Reading := ⟨"f(a, 'xy') + b[1, 2]".toList, .generic, lowLimits⟩

/-- A loop, and an assignment. -/
def smallLoop : Reading :=
  ⟨"WHILE a DO b[1, 2] := 'xy'; END_WHILE; c := 1;".toList, .rockwell, lowLimits⟩

/-- A loop, an assignment without a value, and a call. -/
def brokenLoop : Reading :=
  ⟨"WHILE a DO b[1, 2] := 'xy'; END_WHILE; c := ; d();".toList, .scl, lowLimits⟩

theorem within_limits_low : lowLimits.isPositive = true ∧
    (∃ e, smallExpression.expression = .ok e ∧ smallExpression.Bounds e.nodes) ∧
    (∃ ss, smallLoop.statements [] = .ok ss ∧ smallLoop.StmtBounds ss) ∧
    ∃ ss errors, brokenLoop.statementsRecovering [] = .ok (ss, errors) ∧
      brokenLoop.StmtBounds ss := by
  have positive : lowLimits.isPositive = true := by decide
  have first : smallExpression.expression.toOption.isSome = true := by decide +kernel
  have second : (smallLoop.statements []).toOption.isSome = true := by decide +kernel
  have third : (brokenLoop.statementsRecovering []).toOption.isSome = true := by decide +kernel
  refine ⟨positive, ?_, ?_, ?_⟩
  · obtain ⟨e, h⟩ := ok_of_isSome first
    exact ⟨e, h, (within_limits smallExpression positive []).1 e h⟩
  · obtain ⟨ss, h⟩ := ok_of_isSome second
    exact ⟨ss, h, (within_limits smallLoop positive []).2.1 ss h⟩
  · obtain ⟨⟨ss, errors⟩, h⟩ := ok_of_isSome third
    exact ⟨ss, errors, h, (within_limits brokenLoop positive []).2.2 ss errors h⟩

end Reading

end Plc

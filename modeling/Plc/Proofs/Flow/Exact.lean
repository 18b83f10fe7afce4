/-
The graph of a statement list has the runs of the list as its paths.

From the first block of a fragment that sits in a graph, a path to the exit goes through
a run of the statements of the fragment and then on from where the run ends, see
`Graph.LeadsAfter`.  This is shown for statements and lists together, along the way in
which fragments are built; for loops, by induction on the passes in one direction and on
the length of the path in the other.

* `leads_ofStmt`, `leads_ofList` — the paths through a fragment;
* `runs_iff_path` — the runs of a list are what is held along the paths of its graph.
-/
import Plc.Proofs.Flow.Fragment

namespace Plc.Flow

/-! ### Where runs lead -/

namespace Graph

/-- The block to which control goes after a run that ends so, inside of the given loop and
before the block `k`. -/
def goesTo (g : Graph) (loop : Option Loop) (k : Nat) : Ending → Nat
  | .done => k
  | .exit => (loop.map Loop.exit).getD g.exit
  | .next => (loop.map Loop.header).getD g.exit
  | .leave => g.exit

/-- The statements are those of a run, and then what is held from where the run leads up to the
exit. -/
def LeadsAfter (g : Graph) (goes : Ending → Nat) (runs : List Stmt → Ending → Prop)
    (t : List Stmt) : Prop :=
  ∃ t₁ e t₂, runs t₁ e ∧ t = t₁ ++ t₂ ∧ g.Leads (goes e) t₂

variable {g : Graph} {goes : Ending → Nat} {t : List Stmt}

theorem leads_of_ne_exit {m : Nat} (h : m ≠ g.exit) :
    g.Leads m t ↔ ∃ t', t = g.heldAt m ++ t' ∧ ∃ m' ∈ g.successors m, g.Leads m' t' := by
  constructor
  · intro hm
    cases hm with
    | here => exact absurd rfl h
    | step edge rest => exact ⟨_, rfl, _, edge, rest⟩
  · rintro ⟨t', rfl, m', edge, rest⟩
    exact .step edge rest

/-- From a block that holds nothing and has one successor, paths lead as from the successor. -/
theorem leads_through {m k : Nat} (h : m ≠ g.exit) (held : g.heldAt m = [])
    (next : ∀ m', m' ∈ g.successors m ↔ m' = k) : g.Leads m t ↔ g.Leads k t := by
  rw [leads_of_ne_exit h, held]
  simp [next]

/-- From an exit without successors there is one path. -/
theorem leads_exit (h : ∀ m, m ∉ g.successors g.exit) : g.Leads g.exit t ↔ t = g.heldAt g.exit := by
  constructor
  · intro leads
    cases leads with
    | here => rfl
    | step edge _ => exact absurd edge (h _)
  · rintro rfl
    exact .here

theorem leadsAfter_one {s : Stmt} {e : Ending} :
    g.LeadsAfter goes (fun t e' => t = [s] ∧ e' = e) t ↔ ∃ t', t = s :: t' ∧ g.Leads (goes e) t' := by
  constructor
  · rintro ⟨_, _, t', ⟨rfl, rfl⟩, rfl, rest⟩
    exact ⟨t', rfl, rest⟩
  · rintro ⟨t', rfl, rest⟩
    exact ⟨[s], e, t', ⟨rfl, rfl⟩, rfl, rest⟩

theorem leadsAfter_none :
    g.LeadsAfter goes (fun t e => t = [] ∧ e = .done) t ↔ g.Leads (goes .done) t := by
  constructor
  · rintro ⟨_, _, t', ⟨rfl, rfl⟩, rfl, rest⟩
    exact rest
  · intro rest
    exact ⟨[], .done, t, ⟨rfl, rfl⟩, rfl, rest⟩

theorem leadsAfter_or {p q : List Stmt → Ending → Prop} :
    g.LeadsAfter goes (fun t e => p t e ∨ q t e) t ↔
      g.LeadsAfter goes p t ∨ g.LeadsAfter goes q t := by
  constructor
  · rintro ⟨t₁, e, t₂, hp | hq, rest⟩
    · exact .inl ⟨t₁, e, t₂, hp, rest⟩
    · exact .inr ⟨t₁, e, t₂, hq, rest⟩
  · rintro (⟨t₁, e, t₂, hp, rest⟩ | ⟨t₁, e, t₂, hq, rest⟩)
    · exact ⟨t₁, e, t₂, .inl hp, rest⟩
    · exact ⟨t₁, e, t₂, .inr hq, rest⟩

theorem leadsAfter_false : ¬g.LeadsAfter goes (fun _ _ => False) t := by
  rintro ⟨_, _, _, h, _⟩
  exact h

theorem leadsAfter_cons {s : Stmt} {p : List Stmt → Ending → Prop} :
    g.LeadsAfter goes (fun t e => ∃ t', t = s :: t' ∧ p t' e) t ↔
      ∃ t', t = s :: t' ∧ g.LeadsAfter goes p t' := by
  constructor
  · rintro ⟨_, e, t₂, ⟨t₁, rfl, hp⟩, rfl, rest⟩
    exact ⟨t₁ ++ t₂, rfl, t₁, e, t₂, hp, rfl, rest⟩
  · rintro ⟨_, rfl, t₁, e, t₂, hp, rfl, rest⟩
    exact ⟨s :: t₁, e, t₂, ⟨t₁, rfl, hp⟩, rfl, rest⟩

/-- A statement and then a list: the statement leads to where the list begins. -/
theorem leadsAfter_runsAll_cons {loop : Option Loop} {k k' : Nat} {s : Stmt} {ss : List Stmt}
    (rest : ∀ t, g.Leads k' t ↔ g.LeadsAfter (g.goesTo loop k) (RunsAll ss) t) :
    g.LeadsAfter (g.goesTo loop k') (Runs s) t ↔
      g.LeadsAfter (g.goesTo loop k) (RunsAll (s :: ss)) t := by
  -- The two goals differ only in where a run goes that is done.
  have same {e : Ending} (h : e ≠ .done) : g.goesTo loop k' e = g.goesTo loop k e := by
    cases e with
    | done => exact absurd rfl h
    | exit | next | leave => rfl
  constructor
  · rintro ⟨t₁, e, t₂, run, rfl, leads⟩
    by_cases h : e = .done
    · subst h
      obtain ⟨u₁, e, u₂, runs, rfl, on⟩ := (rest t₂).mp leads
      exact ⟨t₁ ++ u₁, e, u₂, runsAll_cons.mpr (.inl ⟨t₁, u₁, rfl, run, runs⟩), by simp, on⟩
    · rw [same h] at leads
      exact ⟨t₁, e, t₂, runsAll_cons.mpr (.inr ⟨run, h⟩), rfl, leads⟩
  · rintro ⟨_, e, u₂, runs, rfl, leads⟩
    obtain ⟨t₁, u₁, rfl, run, runs⟩ | ⟨run, h⟩ := runsAll_cons.mp runs
    · exact ⟨t₁, .done, u₁ ++ u₂, run, by simp, (rest _).mpr ⟨u₁, e, u₂, runs, rfl, leads⟩⟩
    · rw [← same h] at leads
      exact ⟨_, e, u₂, run, rfl, leads⟩

/-! ### Loops -/

section Loops

variable {runs : List Stmt → Ending → Prop} {s : Stmt} {loop : Option Loop} {n k : Nat}

theorem goesTo_resumes {l : Loop} {e : Ending} (h : e.resumes = true) :
    g.goesTo (some l) l.header e = l.header := by
  cases e with
  | done | next => rfl
  | exit | leave => cases h

/-- A loop that is tested at its first block, before each pass. -/
theorem leads_passes {l : Loop}
    (test : ∀ t, g.Leads l.header t ↔ ∃ t', t = s :: t' ∧
      (g.Leads k t' ∨ g.LeadsAfter (g.goesTo (some l) l.header) runs t'))
    (out : ∀ t, g.Leads l.exit t ↔ g.Leads k t) :
    g.Leads l.header t ↔ g.LeadsAfter (g.goesTo loop k) (Passes s runs) t := by
  constructor
  · -- Each pass takes the test away from the path.
    intro h
    induction hlen : t.length using Nat.strongRecOn generalizing t with
    | _ len ih =>
      obtain ⟨t', rfl, leads | ⟨t₁, e, t₂, pass, rfl, leads⟩⟩ := (test t).mp h
      · exact ⟨[s], .done, t', .stop, rfl, leads⟩
      cases he : e with
      | done | next =>
        have resumes : e.resumes = true := by rw [he]; rfl
        rw [goesTo_resumes resumes] at leads
        obtain ⟨u₁, e', u₂, others, rfl, on⟩ := ih t₂.length (by simp at hlen; omega) leads rfl
        exact ⟨s :: t₁ ++ u₁, e', u₂, .again pass resumes others, by simp, on⟩
      | exit =>
        subst he
        exact ⟨s :: t₁, .done, t₂, .broken pass, by simp, (out t₂).mp leads⟩
      | leave =>
        subst he
        exact ⟨s :: t₁, .leave, t₂, .left pass, by simp, leads⟩
  · -- Conversely a path is put together from the passes, one after another.
    rintro ⟨t₁, e, t₂, passes, rfl, leads⟩
    induction passes with
    | stop => exact (test _).mpr ⟨t₂, rfl, .inl leads⟩
    | @again u u' e e' pass resumes _ ih =>
      refine (test _).mpr ⟨u ++ (u' ++ t₂), by simp, .inr ⟨u, e, u' ++ t₂, pass, rfl, ?_⟩⟩
      rw [goesTo_resumes resumes]
      exact ih leads
    | @broken u pass =>
      exact (test _).mpr ⟨u ++ t₂, rfl, .inr ⟨u, .exit, t₂, pass, rfl, (out t₂).mpr leads⟩⟩
    | @left u pass => exact (test _).mpr ⟨u ++ t₂, rfl, .inr ⟨u, .leave, t₂, pass, rfl, leads⟩⟩

/-- A loop that begins at `n` with its body and is tested after each pass. -/
theorem leads_rounds {l : Loop}
    (body : ∀ t, g.Leads n t ↔ g.LeadsAfter (g.goesTo (some l) l.header) runs t)
    (test : ∀ t, g.Leads l.header t ↔ ∃ t', t = s :: t' ∧ (g.Leads n t' ∨ g.Leads k t'))
    (out : ∀ t, g.Leads l.exit t ↔ g.Leads k t) :
    g.Leads n t ↔ g.LeadsAfter (g.goesTo loop k) (Rounds s runs) t := by
  constructor
  · -- Each round takes its condition away from the path, and so the path gets shorter.
    intro h
    induction hlen : t.length using Nat.strongRecOn generalizing t with
    | _ len ih =>
      obtain ⟨t₁, e, t₂, pass, rfl, leads⟩ := (body t).mp h
      cases he : e with
      | done | next =>
        have resumes : e.resumes = true := by rw [he]; rfl
        rw [goesTo_resumes resumes] at leads
        obtain ⟨t₃, rfl, leads | leads⟩ := (test t₂).mp leads
        · obtain ⟨u₁, e', u₂, others, rfl, on⟩ :=
            ih t₃.length (by simp at hlen; omega) leads rfl
          exact ⟨t₁ ++ s :: u₁, e', u₂, .again pass resumes others, by simp, on⟩
        · exact ⟨t₁ ++ [s], .done, t₃, .stop pass resumes, by simp, leads⟩
      | exit =>
        subst he
        exact ⟨t₁, .done, t₂, .broken pass, rfl, (out t₂).mp leads⟩
      | leave =>
        subst he
        exact ⟨t₁, .leave, t₂, .left pass, rfl, leads⟩
  · rintro ⟨t₁, e, t₂, rounds, rfl, leads⟩
    induction rounds with
    | @stop u e pass resumes =>
      refine (body _).mpr ⟨u, e, s :: t₂, pass, by simp, ?_⟩
      rw [goesTo_resumes resumes]
      exact (test _).mpr ⟨t₂, rfl, .inr leads⟩
    | @again u u' e e' pass resumes _ ih =>
      refine (body _).mpr ⟨u, e, s :: (u' ++ t₂), pass, by simp, ?_⟩
      rw [goesTo_resumes resumes]
      exact (test _).mpr ⟨u' ++ t₂, rfl, .inl (ih leads)⟩
    | @broken u pass => exact (body _).mpr ⟨u, .exit, t₂, pass, rfl, (out t₂).mpr leads⟩
    | @left u pass => exact (body _).mpr ⟨u, .leave, t₂, pass, rfl, leads⟩

end Loops

end Graph

/-! ### Paths through fragments -/

namespace Fragment

open Plc.Flow.Graph

variable {g : Graph} {k : Nat}

/-- The runs of what is done when no condition holds. -/
def RunsOtherwise (otherwise : Option (List Stmt)) (t : List Stmt) (e : Ending) : Prop :=
  match otherwise with
  | some ss => RunsAll ss t e
  | none => t = [] ∧ e = .done

/-- A statement that is one block and falls through. -/
theorem leads_single {loop : Option Loop} {n : Nat} {s : Stmt} {t : List Stmt} (apart : g.exit < n)
    (h : (single n (plain s)).Sits g n k nowhere)
    (runs : Runs s = fun t e => t = [s] ∧ e = .done) :
    g.Leads n t ↔ g.LeadsAfter (g.goesTo loop k) (Runs s) t := by
  obtain ⟨held, next⟩ := h.single
  rw [runs, leads_of_ne_exit (by omega), leadsAfter_one, held]
  simp [next, plain, goesTo]

/-- A statement that is one block and leaves for the place that goes with its ending. -/
theorem leads_jump {loop : Option Loop} {n : Nat} {s : Stmt} {y : Option Edge} {e : Ending}
    {t : List Stmt} (apart : g.exit < n) (h : (jump n (plain s) y).Sits g n k nowhere)
    (source : ∀ x ∈ y, x.source = n) (target : (y.map Edge.target).getD g.exit = g.goesTo loop k e)
    (runs : Runs s = fun t e' => t = [s] ∧ e' = e) :
    g.Leads n t ↔ g.LeadsAfter (g.goesTo loop k) (Runs s) t := by
  obtain ⟨held, next⟩ := h.jump source
  rw [runs, leads_of_ne_exit (by omega), leadsAfter_one, held]
  simp [next, plain, target]

/-- A loop whose header and exit are its first two blocks. -/
theorem leads_testFirst {loop : Option Loop} {n : Nat} {s : Stmt} {p q : Span} {body : Fragment}
    {runs : List Stmt → Ending → Prop} {t : List Stmt} (apart : g.exit < n)
    (h : (testFirst n ⟨.loopHeader, some s, p⟩ ⟨.loopExit, none, q⟩ body).Sits g n k nowhere)
    (fits : body.Fits (n + 2))
    (inside : body.Sits g (n + 2) n nowhere → ∀ t, g.Leads (n + 2) t ↔
      g.LeadsAfter (g.goesTo (some ⟨n, n + 1⟩) n) runs t) :
    g.Leads n t ↔ g.LeadsAfter (g.goesTo loop k) (Passes s runs) t := by
  obtain ⟨⟨held, next⟩, ⟨heldOut, nextOut⟩, sits⟩ := h.testFirst fits
  -- The exit holds no statement, so paths from there are paths from what follows the loop.
  have out (t : List Stmt) : g.Leads (n + 1) t ↔ g.Leads k t :=
    leads_through (by omega) heldOut nextOut
  refine leads_passes (l := ⟨n, n + 1⟩) (fun t => ?_) out
  show g.Leads n t ↔ _
  rw [leads_of_ne_exit (by omega), held]
  simp [next, out, inside sits]

/-- A loop whose condition and exit follow on its first block. -/
theorem leads_testLast {loop : Option Loop} {n : Nat} {s : Stmt} {o p q : Span} {body : Fragment}
    {runs : List Stmt → Ending → Prop} {t : List Stmt} (apart : g.exit < n)
    (h : (testLast n ⟨.basic, none, o⟩ ⟨.loopHeader, some s, p⟩ ⟨.loopExit, none, q⟩ body).Sits g n k
      nowhere)
    (fits : body.Fits (n + 3))
    (inside : body.Sits g (n + 3) (n + 1) nowhere → ∀ t, g.Leads (n + 3) t ↔
      g.LeadsAfter (g.goesTo (some ⟨n + 1, n + 2⟩) (n + 1)) runs t) :
    g.Leads n t ↔ g.LeadsAfter (g.goesTo loop k) (Rounds s runs) t := by
  obtain ⟨⟨heldIn, nextIn⟩, ⟨held, next⟩, ⟨heldOut, nextOut⟩, sits⟩ := h.testLast fits
  have out (t : List Stmt) : g.Leads (n + 2) t ↔ g.Leads k t :=
    leads_through (by omega) heldOut nextOut
  -- The first block holds no statement: from there the body is entered.
  have start (t : List Stmt) : g.Leads n t ↔ g.Leads (n + 3) t :=
    leads_through (by omega) heldIn nextIn
  refine leads_rounds (l := ⟨n + 1, n + 2⟩) (fun t => ?_) (fun t => ?_) out
  · rw [start]
    exact inside sits t
  · show g.Leads (n + 1) t ↔ _
    rw [leads_of_ne_exit (by omega), held]
    simp [next, out]

mutual

/-- From the first block of a statement's fragment, paths go through a run of the statement. -/
theorem leads_ofStmt (loop : Option Loop) {n k : Nat} (apart : g.exit < n) :
    ∀ s, (ofStmt loop n s).Sits g n k nowhere →
      ∀ t, g.Leads n t ↔ g.LeadsAfter (g.goesTo loop k) (Runs s) t
  -- The recursion follows the building of the fragment. Each case reads off what its blocks hold
  -- and where their edges go, and compares that with the runs of the statement.
  | .ifThen p (.mk q c body) elsifs otherwise => by
    intro h t
    rw [ofStmt_ifThen] at h
    have runs : Runs (.ifThen p (.mk q c body) elsifs otherwise) = fun t e =>
        ∃ t', t = .ifThen p (.mk q c body) elsifs otherwise :: t' ∧
          (RunsAll body t' e ∨ RunsElsif elsifs t' e ∨ RunsOtherwise otherwise t' e) := by
      funext t e
      rw [Runs]
      rfl
    -- The fragment was built from the test to the `ELSE`, each part around what was done before.
    have fitsTest := fits_decision n ⟨.branch, some (.ifThen p (.mk q c body) elsifs otherwise), q⟩
    have entry := holds_of_pos (n := n) fitsTest.nonempty
    have fitsBody := fits_ofList loop (n + 1) body
    have first := fitsTest.orElse (e := .whenTrue) fitsBody entry
    have firstEntry := holds_of_pos (n := n) first.nonempty
    obtain ⟨fits, holds⟩ := fits_ofElsifs loop n n _ elsifs first firstEntry
    -- It is taken apart the other way round; what remains are the test and the first body.
    obtain ⟨target, sits, last⟩ := leads_elseDo loop apart fits holds otherwise h
    obtain ⟨more, sits, others⟩ := leads_ofElsifs loop apart elsifs first firstEntry sits
    obtain ⟨held, next⟩ := (sits.orElse_left fitsBody).decision
    have inside := leads_ofList loop (by omega) body
      (sits.orElse_right fitsTest entry fun m m' h => h.1 ▸ entry)
    rw [leads_of_ne_exit (by omega), held, runs, leadsAfter_cons]
    -- Both sides name the statement first, and only then differ by the branch that is taken.
    refine exists_congr fun t' => and_congr_right fun _ => ?_
    rw [leadsAfter_or, leadsAfter_or, ← inside, ← last]
    simp only [next, fitsBody.first, true_and, or_and_right, exists_or, exists_eq_left, others]
    exact or_comm
  | .caseOf p c branches otherwise => by
    intro h t
    rw [ofStmt_caseOf] at h
    have runs : Runs (.caseOf p c branches otherwise) = fun t e =>
        ∃ t', t = .caseOf p c branches otherwise :: t' ∧
          (RunsBranch branches t' e ∨ RunsOtherwise otherwise t' e) := by
      funext t e
      rw [Runs]
      rfl
    have fitsTest := fits_decision n ⟨.branch, some (.caseOf p c branches otherwise), p⟩
    have fits := fits_ofBranches loop n _ branches fitsTest
    -- There is no first body: all branches hang on the test.
    obtain ⟨target, sits, last⟩ :=
      leads_elseDo loop apart fits (holds_of_pos fits.nonempty) otherwise h
    obtain ⟨more, sits, others⟩ := leads_ofBranches loop apart branches fitsTest sits
    obtain ⟨held, next⟩ := sits.decision
    rw [leads_of_ne_exit (by omega), held, runs, leadsAfter_cons]
    refine exists_congr fun t' => and_congr_right fun _ => ?_
    rw [leadsAfter_or, ← last]
    simp only [next, true_and, others, exists_eq_left]
  -- Loops with the test in front are alike, and their bodies may leave them early.
  | .forLoop p control start stop step body => by
    intro h t
    rw [ofStmt] at h
    have runs : Runs (.forLoop p control start stop step body) =
        Passes (.forLoop p control start stop step body) (RunsAll body) := by
      funext t e
      rw [Runs]
    rw [runs]
    exact leads_testFirst apart h (fits_ofList _ _ body)
      fun sits => leads_ofList _ (by omega) body sits
  | .whileLoop p condition body => by
    intro h t
    rw [ofStmt] at h
    have runs : Runs (.whileLoop p condition body) =
        Passes (.whileLoop p condition body) (RunsAll body) := by
      funext t e
      rw [Runs]
    rw [runs]
    exact leads_testFirst apart h (fits_ofList _ _ body)
      fun sits => leads_ofList _ (by omega) body sits
  | .repeatLoop p body condition => by
    intro h t
    rw [ofStmt] at h
    have runs : Runs (.repeatLoop p body condition) =
        Rounds (.repeatLoop p body condition) (RunsAll body) := by
      funext t e
      rw [Runs]
    rw [runs]
    exact leads_testLast apart h (fits_ofList _ _ body)
      fun sits => leads_ofList _ (by omega) body sits
  -- An empty region is a block of its own; any other stands for its statements.
  | .region p title [] => by
    intro h t
    exact leads_single apart h (by funext t e; rw [Runs] <;> simp)
  | .region p title (first :: rest) => by
    intro h t
    rw [ofStmt] at h
    have runs : Runs (.region p title (first :: rest)) = RunsAll (first :: rest) := by
      funext t e
      rw [Runs]
    rw [runs]
    obtain ⟨k', sits, after⟩ := leads_ofTail loop apart rest (fits_ofStmt loop n first) h
    rw [leads_ofStmt loop apart first sits]
    exact leadsAfter_runsAll_cons after
  | .leave p value => by
    intro h t
    exact leads_jump (e := .leave) apart h (by simp) rfl (by funext t e; rw [Runs])
  | .exitLoop p => by
    intro h t
    -- Outside of a loop both go on with what follows.
    refine leads_jump (e := .exit) apart h (by simp) ?_ (by funext t e; rw [Runs])
    cases loop <;> rfl
  | .nextPass p => by
    intro h t
    refine leads_jump (e := .next) apart h (by simp) ?_ (by funext t e; rw [Runs])
    cases loop <;> rfl
  | .assignment .. | .call .. | .invoke .. | .empty _ | .goto .. | .label .. => by
    intro h t
    exact leads_single apart h (by funext t e; rw [Runs] <;> simp)

theorem leads_ofList (loop : Option Loop) {n k : Nat} (apart : g.exit < n) :
    ∀ ss, (ofList loop n ss).Sits g n k nowhere →
      ∀ t, g.Leads n t ↔ g.LeadsAfter (g.goesTo loop k) (RunsAll ss) t
  | [] => by
    intro h t
    obtain ⟨held, next⟩ := h.single
    have runs : RunsAll [] = fun t e => t = [] ∧ e = .done := by
      funext t e
      rw [RunsAll]
    rw [leads_through (by omega) held next, runs, leadsAfter_none]
    rfl
  | s :: ss => by
    intro h t
    rw [ofList] at h
    -- What the first statement falls into is the start of the others.
    obtain ⟨k', sits, after⟩ := leads_ofTail loop apart ss (fits_ofStmt loop n s) h
    rw [leads_ofStmt loop apart s sits]
    exact leadsAfter_runsAll_cons after

/-- Where a decision goes in the end, when no condition holds. -/
theorem leads_elseDo (loop : Option Loop) {n k source : Nat} {done : Fragment} (apart : g.exit < n)
    (fits : done.Fits n) (holds : done.Holds n source) :
    ∀ otherwise, (elseDo loop n source done otherwise).Sits g n k nowhere →
      ∃ target, done.Sits g n k (fun m m' => m = source ∧ m' = target) ∧
        ∀ t, g.Leads target t ↔ g.LeadsAfter (g.goesTo loop k) (RunsOtherwise otherwise) t
  | some ss => by
    intro h
    have fitsList := fits_ofList loop (n + done.blocks.length) ss
    -- The edge from the test goes to the first block of the statements, or else to what follows.
    refine ⟨n + done.blocks.length, (h.orElse_left fitsList).congr fun m m' _ => ?_, ?_⟩
    · simp [nowhere, fitsList.first]
    · exact leads_ofList loop (by omega) ss (h.orElse_right fits holds fun _ _ no => no.elim)
  | none => by
    intro h
    -- The edge from the test goes to what follows.
    refine ⟨k, h.fallFrom.congr fun m m' _ => ?_, fun t => ?_⟩
    · simp [nowhere]
    · show g.Leads (g.goesTo loop k .done) t ↔ _
      exact leadsAfter_none.symm

/-- What is done sits before the statements that follow, and from where it falls out paths go
through a run of them. -/
theorem leads_ofTail (loop : Option Loop) {n k : Nat} {done : Fragment} (apart : g.exit < n) :
    ∀ ss, done.Fits n → (ofTail loop n done ss).Sits g n k nowhere →
      ∃ k', done.Sits g n k' nowhere ∧
        ∀ t, g.Leads k' t ↔ g.LeadsAfter (g.goesTo loop k) (RunsAll ss) t
  | [] => by
    intro _ h
    have runs : RunsAll [] = fun t e => t = [] ∧ e = .done := by
      funext t e
      rw [RunsAll]
    refine ⟨k, h, fun t => ?_⟩
    rw [runs, leadsAfter_none]
    rfl
  | s :: ss => by
    intro fits h
    rw [ofTail] at h
    have fitsStmt := fits_ofStmt loop (n + done.blocks.length) s
    -- The rest is taken off first, since the fragment was extended by one statement after another.
    obtain ⟨k', sits, after⟩ := leads_ofTail loop apart ss (fits.andThen fitsStmt) h
    refine ⟨_, sits.andThen_left fitsStmt, fun t => ?_⟩
    rw [fitsStmt.first, leads_ofStmt loop (by omega) s (sits.andThen_right fits)]
    exact leadsAfter_runsAll_cons after

/-- What is done sits before the conditions that follow; where it goes when its own does not hold,
paths go through one of their bodies or on from the last of them. -/
theorem leads_ofElsifs (loop : Option Loop) {n k source : Nat} {done : Fragment}
    {more : Nat → Prop} (apart : g.exit < n) :
    ∀ bs, done.Fits n → done.Holds n source →
      (ofElsifs loop n source done bs).1.Sits g n k
        (fun m m' => m = (ofElsifs loop n source done bs).2 ∧ more m') →
      ∃ more' : Nat → Prop, done.Sits g n k (fun m m' => m = source ∧ more' m') ∧
        ∀ t, (∃ m', more' m' ∧ g.Leads m' t) ↔
          g.LeadsAfter (g.goesTo loop k) (RunsElsif bs) t ∨ ∃ m', more m' ∧ g.Leads m' t
  | [] => by
    intro _ _ h
    -- No condition is left, so that nothing is added to the last one's edges.
    refine ⟨more, h, fun t => ?_⟩
    have runs : RunsElsif [] = fun _ _ => False := by
      funext t e
      rw [RunsElsif]
    rw [runs]
    exact (or_iff_right leadsAfter_false).symm
  | .mk p c body :: bs => by
    intro fits holds h
    rw [ofElsifs] at h
    have runs : RunsElsif (.mk p c body :: bs) = fun t e => RunsAll body t e ∨ RunsElsif bs t e := by
      funext t e
      rw [RunsElsif]
    have fitsBody := fits_ofList loop (n + done.blocks.length + 1) body
    obtain ⟨accFits, accHolds⟩ := fits.elseTest (x := { kind := .branch, span := p })
      (e := .whenTrue) holds fitsBody
    -- The later conditions are taken off first; then this test and its body are inside what
    -- remains.
    obtain ⟨more', sits, others⟩ := leads_ofElsifs loop apart bs accFits accHolds h
    obtain ⟨sitsDone, ⟨held, next⟩, sitsBody⟩ := sits.elseTest fits holds fitsBody
    have inside := leads_ofList loop (by omega) body sitsBody
    refine ⟨fun m' => m' = n + done.blocks.length, sitsDone, fun t => ?_⟩
    -- The test holds no statement: it has an edge to its body and one to the next condition.
    rw [exists_eq_left, leads_of_ne_exit (by omega), held, runs, leadsAfter_or, or_assoc, ← others,
      ← inside]
    simp only [next, or_and_right, exists_or, exists_eq_left, exists_eq_left', Option.toList_none,
      List.nil_append]
    exact or_comm

/-- What is done sits before the choices that follow; where it goes else, paths go through one of
them. -/
theorem leads_ofBranches (loop : Option Loop) {n k : Nat} {done : Fragment}
    {more : Nat → Prop} (apart : g.exit < n) :
    ∀ bs, done.Fits n → (ofBranches loop n done bs).Sits g n k (fun m m' => m = n ∧ more m') →
      ∃ more' : Nat → Prop, done.Sits g n k (fun m m' => m = n ∧ more' m') ∧
        ∀ t, (∃ m', more' m' ∧ g.Leads m' t) ↔
          g.LeadsAfter (g.goesTo loop k) (RunsBranch bs) t ∨ ∃ m', more m' ∧ g.Leads m' t
  | [] => by
    intro _ h
    refine ⟨more, h, fun t => ?_⟩
    have runs : RunsBranch [] = fun _ _ => False := by
      funext t e
      rw [RunsBranch]
    rw [runs]
    exact (or_iff_right leadsAfter_false).symm
  | .mk p c body :: bs => by
    intro fits h
    rw [ofBranches] at h
    have runs : RunsBranch (.mk p c body :: bs) =
        fun t e => RunsAll body t e ∨ RunsBranch bs t e := by
      funext t e
      rw [RunsBranch]
    -- All branches start at the test, which is the first block of what was done.
    have entry : done.Holds n n := holds_of_pos fits.nonempty
    have fitsBody := fits_ofList loop (n + done.blocks.length) body
    obtain ⟨more', sits, others⟩ := leads_ofBranches loop apart bs (fits.orElse fitsBody entry) h
    have inside := leads_ofList loop (by omega) body
      (sits.orElse_right fits entry fun m m' h => h.1 ▸ entry)
    -- The test gains one edge, to the body of this branch.
    refine ⟨fun m' => more' m' ∨ m' = n + done.blocks.length,
      (sits.orElse_left fitsBody).congr fun m m' _ => ?_, fun t => ?_⟩
    · rw [fitsBody.first]
      exact and_or_left.symm
    · rw [runs, leadsAfter_or, or_assoc, ← others, ← inside]
      simp only [or_and_right, exists_or, exists_eq_left]
      exact or_comm

end

end Fragment

/-! ### The graph of a list -/

/-- The graph's blocks other than its entry and its exit are the fragment of the list, which sits
between the two. -/
theorem sits_ofList (s : Stmt) (ss : List Stmt) :
    (Fragment.ofList none 2 (s :: ss)).Sits (Graph.ofList (s :: ss)) 2 1 Fragment.nowhere := by
  have fits := Fragment.fits_ofList none 2 (s :: ss)
  obtain ⟨first, -, edges, exits, leaves⟩ := fits
  refine ⟨fun i _ => ?_, fun m m' ⟨low, high⟩ => ?_⟩
  · rw [Nat.add_comm]
    rfl
  · -- The edges are those of the fragment, one from the entry, and those to the exit.
    rw [Graph.mem_successors]
    simp only [Graph.ofList, joins_append, joins_map, joins_cons, joins_nil, or_false]
    grind [Fragment.nowhere]

/-- No edge of the fragment starts at the entry or at the exit. -/
theorem not_joins_ends (s : Stmt) (ss : List Stmt) {m : Nat} (h : m < 2) :
    (∀ m', ¬Joins (Fragment.ofList none 2 (s :: ss)).edges m m') ∧
      m ∉ (Fragment.ofList none 2 (s :: ss)).exits ∧
      m ∉ (Fragment.ofList none 2 (s :: ss)).leaves := by
  obtain ⟨-, -, edges, exits, leaves⟩ := Fragment.fits_ofList none 2 (s :: ss)
  refine ⟨fun m' hm => ?_, fun hm => ?_, fun hm => ?_⟩
  · have := (edges m m' hm).1
    omega
  · have := (exits m hm).1
    omega
  · have := (leaves m hm).1
    omega

theorem exit_ofList (ss : List Stmt) : (Graph.ofList ss).exit = 1 := by
  cases ss <;> rfl

theorem leads_exit_iff (ss t : List Stmt) :
    (Graph.ofList ss).Leads (Graph.ofList ss).exit t ↔ t = [] := by
  rw [Graph.leads_exit, exit_ofList]
  · cases ss <;> rfl
  · intro m
    rw [exit_ofList, Graph.mem_successors]
    cases ss with
    | nil => simp [Graph.ofList]
    | cons s ss =>
      obtain ⟨edges, exits, leaves⟩ := not_joins_ends s ss (m := 1) (by omega)
      simp [Graph.ofList, edges, exits, leaves]

/-- Outside of all loops, every run of a list that stands before the exit leads to the exit. -/
theorem goesTo_ofList (ss : List Stmt) (e : Ending) :
    (Graph.ofList ss).goesTo none 1 e = (Graph.ofList ss).exit := by
  cases e with
  | done => exact (exit_ofList ss).symm
  | exit | next | leave => rfl

/-- The statements that complete runs of the list execute or test are those held along the paths
from the entry of its graph to the exit. -/
theorem runs_iff_path (ss t : List Stmt) :
    (∃ e, RunsAll ss t e) ↔ ∃ p, (Graph.ofList ss).IsPath p ∧ (Graph.ofList ss).held p = t := by
  rw [← Graph.leads_entry_iff]
  -- The empty list has no fragment, only an edge from the entry to the exit.
  cases ss with
  | nil =>
    have next (m' : Nat) : m' ∈ (Graph.ofList []).successors 0 ↔ m' = 1 := by
      rw [Graph.mem_successors]
      simp [Graph.ofList, eq_comm]
    show _ ↔ (Graph.ofList []).Leads 0 t
    rw [Graph.leads_through (by decide) rfl next, ← exit_ofList [], leads_exit_iff]
    simp [RunsAll]
  | cons s ss =>
    have fits := Fragment.fits_ofList none 2 (s :: ss)
    have next (m' : Nat) : m' ∈ (Graph.ofList (s :: ss)).successors 0 ↔ m' = 2 := by
      rw [Graph.mem_successors]
      obtain ⟨edges, exits, leaves⟩ := not_joins_ends s ss (m := 0) (by omega)
      simp [Graph.ofList, edges, exits, leaves, fits.first, eq_comm]
    have apart : (Graph.ofList (s :: ss)).exit < 2 := by
      rw [exit_ofList]
      omega
    show _ ↔ (Graph.ofList (s :: ss)).Leads 0 t
    rw [Graph.leads_through (by rw [exit_ofList]; omega) rfl next,
      Fragment.leads_ofList none apart (s :: ss) (sits_ofList s ss)]
    constructor
    · rintro ⟨e, runs⟩
      refine ⟨t, e, [], runs, by simp, ?_⟩
      rw [goesTo_ofList, leads_exit_iff]
    · rintro ⟨t₁, e, t₂, runs, rfl, leads⟩
      rw [goesTo_ofList, leads_exit_iff] at leads
      subst leads
      exact ⟨e, by simpa using runs⟩

end Plc.Flow

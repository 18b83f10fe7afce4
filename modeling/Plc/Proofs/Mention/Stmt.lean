/-
The variables of statements are those that their tokens name.

Each rule for statements tells the names of its result; the counter of a loop is one of them, and so is
a label.  The title of a region is passed over without a word, as it is no part of the code.

* `statementList_tells` — a list of statements;
* `statement_tells` — one statement, whatever is open around it.
-/
import Plc.Proofs.Mention.Expr
import Plc.Proofs.Yield.Stmt

namespace Plc.Grammar

variable {x : Script} {D N : List String} {calls : List Bool} {A : (Nat → Token) → Prop}
  {L : List Token → Prop} {e : Rule Expr} {r : Rule Stmt}

/-- A statement was passed over after the given names. -/
abbrev SaidStmt (x : Script) (D N : List String) (calls : List Bool) (y : Stmt) : Assertion :=
  Told x D (N ++ y.names x.dialect D) calls Any

/-! ### Lists of statements -/

section

variable (hr : Tells x D r (Stmt.names x.dialect D))

include hr

theorem statementListUntil_tells {stop : Rule Bool}
    (hstop : ∀ N calls, Triple (Told x D N calls Any) stop fun _ => Told x D N calls Any) :
    Tells x D (statementListUntil stop r) (Stmt.namesAll x.dialect D) := by
  intro N calls
  let I (ss : List Stmt) : Assertion := Told x D (N ++ Stmt.namesAll x.dialect D ss) calls Any
  refine Triple.passes.bind fun n => ?_
  refine (Triple.many (I := I) (J := I) (fun ss => ?_) (fun ss size => ?_) n 0 []).imp fun s c h => ?_
  · refine Triple.lexeme.bind fun l => .ite (fun _ => ?_) fun _ => ?_
    · exact Triple.pure (a := false) fun s c h => h.1
    · refine ((hstop _ _).imp fun s c h => h.1).bind fun y => .pure fun s c h => ?_
      cases y <;> exact h
  · refine Triple.bind (R := fun o => o.elim (fun _ _ => False) fun s' => I (ss ++ [s'])) ?_ fun o => ?_
    · refine Triple.strictly (fun s c h => h.strict) ((hr _ _).post fun s' s c h => ?_)
      refine h.mono ?_
      rw [Stmt.namesAll_append, List.append_assoc]
      exact List.Subset.refl _
    · cases o with
      | none => exact .given (fun _ _ h => h) False.elim
      | some s' => exact (Triple.checkSize _ _).bind fun _ => .pure fun s c h => h
  · exact h.mono (List.subset_append_left _ _)

theorem statementList_tells : Tells x D (statementList r) (Stmt.namesAll x.dialect D) :=
  statementListUntil_tells hr fun _ _ => .pure fun _ _ h => h

end

/-! ### Simple statements -/

theorem expectSemicolon_told :
    Triple (Passed x D N calls L A) expectSemicolon fun _ => Told x D N calls Any := by
  refine Passed.peek.bind fun t => ?_
  split
  · next known =>
    refine Passed.passQuiet (.mark .semicolon) rfl (fun g hg => hg.2 ▸ known) fun _ => ?_
    exact .pure fun s c h => h.told
  · exact .failExpecting _
  · exact .failExpecting _
  · exact Triple.bind_fails fun _ => .fail _

/-- A statement without bodies ends with a semicolon. -/
theorem endSimple {N' : List String} {start : Span} {build : Span → Stmt}
    (simple : ∀ span, (build span).flatten = [build span] ∧ (build span).control? = none ∧
      (build span).label? = none)
    (all : ∀ span, N' ⊆ N ++ (build span).roots.flatMap (Expr.names D)) :
    Triple (Passed x D N' calls L A) (do expectSemicolon; node start build)
      (SaidStmt x D N calls) := by
  refine expectSemicolon_told.bind fun _ => Passed.node _ fun span => ?_
  obtain ⟨flat, control, label⟩ := simple span
  rw [Stmt.names_simple flat control label]
  exact all span

theorem assignmentOrCall_told (he : Tells x D e (Expr.names D)) :
    Triple (Told x D N calls A) (assignmentOrCall e) (SaidStmt x D N calls) := by
  refine Passed.peek.bind fun start => (variableWith_told he).bind fun v => ?_
  refine (Passed.sees _).bind fun call => .ite (fun yes => ?_) fun _ => ?_
  · subst yes
    split
    · exact Triple.bind_fails fun _ => .fail _
    · next name path =>
      refine .given (φ := v.isPlain = true → pathFront name ∈ v.names D)
        (fun s c ⟨ts, _, _, _, ends⟩ plain => ((ends name path).2 plain).1) fun front => ?_
      refine Triple.imp ?_ fun s c h => callee_told path h
      refine (callArgs_told he fun ts h => h).bind fun args => (Triple.isDeclared _).bind fun known => ?_
      -- what is declared is invoked as an instance, anything else is called as a function
      refine .ite (fun _ => ?_) fun _ => ?_
      · refine endSimple (fun _ => ⟨rfl, rfl, rfl⟩) fun span m hm => ?_
        rw [Stmt.roots, List.flatMap_cons, ← Arg.flatMap_names]
        simp only [List.mem_append] at hm ⊢
        obtain (before | callee) | arg := hm
        · exact .inl before
        · unfold calleeTold at callee
          split at callee
          · next plain => exact .inr (.inl (calleeNames_subset (front plain) callee))
          · cases callee
        · exact .inr (.inr arg)
      · refine Triple.bind (R := fun _ => Told x D (N ++ calleeTold D v name ++
          args.flatMap (Arg.names D)) calls Any) (Passed.stable.node _ fun _ _ _ h => h) fun callSpan => ?_
        refine endSimple (fun _ => ⟨rfl, rfl, rfl⟩) fun span m hm => ?_
        rw [Stmt.roots, List.flatMap_singleton]
        simp only [List.mem_append, Expr.mem_names_call] at hm ⊢
        obtain (before | callee) | arg := hm
        · exact .inl before
        · exact .inr (.inl (calleeTold_subset _ _ _ callee))
        · exact .inr (.inr arg)
  · refine Passed.lexeme.bind fun l => ?_
    split
    · exact .failExpecting _
    · next op known =>
      have mark : l = .mark op.mark := by
        unfold AssignOp.ofLexeme? at known
        split at known
        all_goals first | (cases known; rfl) | cases known
      have facts : isQuiet (.mark op.mark) = true ∧ callsPast (.mark op.mark) calls = calls := by
        cases op <;> exact ⟨rfl, rfl⟩
      refine Passed.passQuiet (.mark op.mark) facts.1 (fun g hg => hg.2.trans mark) fun _ => ?_
      rw [facts.2]
      refine ((he _ _).imp fun s c h => h.told).bind fun y => ?_
      refine endSimple (fun _ => ⟨rfl, rfl, rfl⟩) fun span => ?_
      simp [Stmt.roots, Variable.names]

theorem oneWord_told {k : Keyword} {build : Span → Stmt} (silent : isQuiet (.keyword k) = true)
    (simple : ∀ span, (build span).flatten = [build span] ∧ (build span).control? = none ∧
      (build span).label? = none)
    (known : ∀ g, A g → (g 0).lexeme = .keyword k) :
    Triple (Told x D N calls A) (oneWord build) (SaidStmt x D N calls) :=
  Passed.passQuiet (.keyword k) silent known fun _ =>
    endSimple simple fun _ => List.subset_append_left _ _

theorem leaveStmt_told (he : Tells x D e (Expr.names D))
    (known : ∀ g, A g → (g 0).lexeme = .keyword .RETURN) :
    Triple (Told x D N calls A) (leaveStmt e) (SaidStmt x D N calls) := by
  refine Passed.passQuiet (.keyword .RETURN) rfl known fun t => ?_
  refine Passed.lexeme.bind fun l => ?_
  dsimp only
  have rest (value : Option Expr) : Triple
      (Told x D (N ++ value.toList.flatMap (Expr.names D)) calls Any)
      (do expectSemicolon; node t.span fun s => Stmt.leave s value) (SaidStmt x D N calls) :=
    endSimple (fun _ => ⟨rfl, rfl, rfl⟩) fun span => List.Subset.refl _
  refine .ite (fun _ => ?_) fun _ => ?_
  · exact (rest none).imp fun s c h => h.told.mono (List.subset_append_left _ _)
  · rw [map_eq_pure_bind, bind_assoc]
    refine ((he _ _).imp fun s c h => h.told).bind fun y => (rest (some y)).imp fun s c h => ?_
    simpa [callsPast, Lexeme.is] using h

/-! ### Parts of constructs -/

theorem caseSelector_tells (he : Tells x D e (Expr.names D)) :
    Tells x D (caseSelector e) (CaseSelector.names D) := by
  intro N calls
  refine Passed.peek.bind fun start => ((he _ _).imp fun s c h => h.told).bind fun low => ?_
  refine (Passed.accept Mark.range rfl).bind fun range => .ite (fun yes => ?_) fun no => ?_
  · subst yes
    refine ((he _ _).imp fun s c h => h.told).bind fun high => Passed.node _ fun span => ?_
    simp [CaseSelector.names, CaseSelector.roots]
  · rw [Bool.not_eq_true] at no
    subst no
    refine Passed.node _ fun span => ?_
    simp [CaseSelector.names, CaseSelector.roots]

theorem elseBody_tells (hr : Tells x D r (Stmt.names x.dialect D)) :
    Tells x D (elseBody r) fun o => Stmt.namesAll x.dialect D (o.getD []) := by
  intro N calls
  refine (Passed.accept Keyword.ELSE rfl).bind fun yes => .ite (fun h => ?_) fun h => ?_
  · subst h
    exact Triple.map ((statementList_tells hr _ _).imp fun s c h => h.told) fun ss s c h => h
  · rw [Bool.not_eq_true] at h
    subst h
    exact .pure fun s c h => h.told.mono (List.subset_append_left _ _)

theorem ifBranch_told (he : Tells x D e (Expr.names D)) (hr : Tells x D r (Stmt.names x.dialect D))
    (opener : Token) :
    Triple (Passed x D N calls L A) (ifBranch e r opener)
      fun b => Told x D (N ++ b.names x.dialect D) calls Any := by
  refine ((he _ _).imp fun s c h => h.told).bind fun condition => ?_
  refine (Passed.expect Keyword.THEN rfl).bind fun _ => ?_
  refine ((statementList_tells hr _ _).imp fun s c h => h.told).bind fun body => ?_
  refine Passed.node _ fun span => ?_
  simp [IfBranch.names, IfBranch.condition, IfBranch.body]

theorem caseBranch_tells (he : Tells x D e (Expr.names D)) (hr : Tells x D r (Stmt.names x.dialect D)) :
    Tells x D (caseBranch e r) (CaseBranch.names x.dialect D) := by
  intro N calls
  refine Passed.peek.bind fun start => ?_
  refine ((commaList_told (caseSelector_tells he) _ _).imp fun s c h => h.told).bind fun selectors => ?_
  refine (Passed.expect Mark.colon rfl).bind fun _ => ?_
  have stop (N : List String) (calls : List Bool) : Triple (Told x D N calls Any)
      (do return beginsCaseLabel (← dialect) ((← tokensLeft).map Token.lexeme))
      fun _ => Told x D N calls Any := by
    rintro s c y c' h hrun
    cases hrun
    exact h
  refine ((statementListUntil_tells hr stop _ _).imp fun s c h => h.told).bind fun body => ?_
  refine Passed.node _ fun span => ?_
  simp [CaseBranch.names, CaseBranch.selectors, CaseBranch.body]

/-- A name that is not quoted is told. -/
theorem seenName_told :
    Triple (Passed x D N calls L fun g => A g ∧ (g 0).lexeme = .name) advance
      fun t s c => t.lexeme = .name ∧ Told x D (N ++ [t.text]) calls Any s c := by
  refine Triple.imp (P := fun s c => ∃ t, Passed x D N calls L
    (fun g => (g 0).lexeme = .name ∧ g 0 = t) s c) (.ex fun t => ?_) fun s c h =>
      ⟨s.ahead c 0, (h.weaken (fun _ h => h) fun g hg => hg.2).and (B := fun g => g 0 = s.ahead c 0) rfl⟩
  refine (Passed.name (List.subset_append_left N [t.text]) (fun g hg => hg.1)
    fun g ts after hg _ _ _ _ => by rw [hg.2]; simp).post fun u s c h => ?_
  obtain ⟨name, rfl⟩ : u.lexeme = .name ∧ u = t := h.fact fun g hg => hg
  exact ⟨name, h.told⟩

theorem expectName_told (expected : String) :
    Triple (Passed x D N calls L A) (expectName expected)
      fun t => Told x D (N ++ [t.text]) calls Any := by
  refine Passed.lexeme.bind fun l => ?_
  split
  · exact seenName_told.post fun t s c h => h.2
  · exact .failExpecting _

/-- A name in quotes is told for nothing: as it is written, it stands for no variable. -/
theorem expectAnyName_told (expected : String) :
    Triple (Passed x D N calls L A) (expectAnyName expected)
      fun t => Told x D (N ++ [t.nameText]) calls Any := by
  refine Passed.lexeme.bind fun l => ?_
  split
  · refine seenName_told.post fun t s c ⟨name, h⟩ => ?_
    rwa [Token.nameText, name]
  · next n =>
    refine Passed.dialect (.ite (fun _ => ?_) fun _ => .failExpecting _)
    refine (Passed.quiet fun g hg => by rw [hg.2]; rfl).post fun u s c h => ?_
    have quoted : u.lexeme = .quotedName n := h.fact fun g hg => hg.2
    rw [quoted] at h
    exact h.told.mono (List.subset_append_left _ _)
  · exact .failExpecting _

/-- A statement has its label among its names, in a dialect with labels. -/
theorem nodeLabelled {start : Span} {label : String} {build : Span → Stmt}
    (blocks : x.dialect.blocks = true)
    (labelled : ∀ span, (build span).flatten = [build span] ∧ (build span).label? = some label) :
    Triple (Passed x D (N ++ [label]) calls L A) (node start build) (SaidStmt x D N calls) := by
  refine Passed.node _ fun span => List.append_subset.2 ⟨List.subset_append_left _ _, ?_⟩
  obtain ⟨flat, label⟩ := labelled span
  exact List.cons_subset.2
    ⟨List.mem_append_right _ (Stmt.mem_names_label blocks flat label), List.nil_subset _⟩

/-- A jump tells its label. -/
theorem gotoStmt_told (known : ∀ g, A g → (g 0).lexeme = .keyword .GOTO) :
    Triple (Told x D N calls A) gotoStmt (SaidStmt x D N calls) := by
  refine .given (φ := x.dialect.blocks = true) (fun s c h => h.reserved known) fun blocks => ?_
  refine Passed.passQuiet (.keyword .GOTO) rfl known fun t => ?_
  refine (expectName_told _).bind fun label => expectSemicolon_told.bind fun _ => ?_
  exact nodeLabelled blocks fun _ => ⟨rfl, rfl⟩

/-- The word that closes a construct, and a semicolon perhaps. -/
theorem endConstruct_told {close : Keyword} (opener : Span)
    (silent : isQuiet (.keyword close) = true) :
    Triple (Passed x D N calls L A) (endConstruct close opener) fun _ => Told x D N calls Any := by
  have same : callsPast (.keyword close) calls = calls := rfl
  refine (Passed.sees _).bind fun seen => .ite (fun yes => ?_) fun _ => ?_
  · subst yes
    refine Passed.passQuiet (.keyword close) silent (fun g hg => Terminal.is_lexeme hg.2) fun _ => ?_
    refine (Passed.accept Mark.semicolon rfl).bind fun semicolon => .pure fun s c h => ?_
    cases semicolon <;> exact h.told
  · exact Triple.atEnd.bind fun _ => .ite (fun _ => .fail _) fun _ => .failExpecting _

/-! ### Titles -/

/-- The tokens left begin with those of a title that reaches to the given offset. -/
def InTitle (x : Script) (D N : List String) (calls : List Bool) (stop : Nat)
    (T : List Token → Prop) : Assertion :=
  fun s c => ∃ ts, s = x.setting ∧ x.all = ts ++ withoutTitles x.setting.source stop c.rest ∧
    c.rest ⊆ x.raw ∧ openCalls ts.reverse = calls ∧ Names x D ts N ∧ T c.rest

/-- A title begins behind the word that opens its region. -/
theorem opensRegion (known : ∀ g, A g → (g 0).lexeme = .keyword .REGION) :
    Triple (Passed x D N calls L A) advance fun t =>
      InTitle x D N calls (Text.lineStop x.setting.source t.span.stop) fun _ => True := by
  have sound (g : Nat → Token) (hg : A g) : (g 0).lexeme.isSound = true := by
    rw [known g hg]
    rfl
  refine Triple.advance ?_ ?_
  · rintro s c ⟨ts, h, -⟩ none
    obtain ⟨t, rest, hrest, -⟩ := h.exists_cons sound
    rw [none] at hrest
    cases hrest
  · rintro s c t rest ⟨ts, h, opened, names, -⟩ hrest
    -- What is passed is the word that was seen, so the title begins here.
    have region : t.lexeme = .keyword .REGION := by
      have word := known _ h.ahead
      rwa [Setting.ahead, hrest] at word
    have parts := h.parts
    rw [hrest, withoutTitles, if_neg (Nat.not_lt_zero _), region, if_pos (by rfl)] at parts
    refine ⟨ts ++ [t], h.setting, ?_, fun u hu => h.left (hrest ▸ List.mem_cons_of_mem _ hu), ?_, ?_, trivial⟩
    · rw [parts, List.append_assoc]
      rfl
    · have other : t.lexeme ≠ .mark .leftParen := by
        intro same
        cases region.symm.trans same
      rw [openCalls_concat other, region, opened]
      rfl
    -- The word `REGION` is no name, so it adds nothing to the names of the text.
    · refine names.concat (List.Subset.refl _) parts fun stands => ?_
      have name := stands.name
      rw [region] at name
      cases name

/-- The tokens of a title are passed over, and the code goes on behind them. -/
theorem skipBefore_told (stop : Nat) :
    Triple (InTitle x D N calls stop fun _ => True) (skipBefore stop)
      fun _ => Told x D N calls Any := by
  refine Triple.passes.bind fun n => ?_
  -- The invariant is that the tokens of the title are dropped from what is left to be told; it ends
  -- with the first one behind the title.
  refine (Triple.manyUntil (I := fun _ => InTitle x D N calls stop fun _ => True)
    (J := fun _ => InTitle x D N calls stop fun ts => ∃ t rest, ts = t :: rest ∧ t.span.start < stop)
    (K := fun _ => Told x D N calls Any) (fun _ => ?_) (fun _ _ => ?_) n 0 []).bind fun _ =>
      .pure fun s c h => h
  -- Looking: at the end of the text there is nothing to drop, and a token behind the title stays.
  · refine Triple.atEnd.bind fun ended => Triple.peek.bind fun t => .pure fun s c h => ?_
    obtain ⟨⟨⟨ts, setting, parts, left, opened, names, -⟩, ends⟩, seen⟩ := h
    cases hrest : c.rest with
    | nil =>
      have finish : ended = true := by
        rw [← ends, Setting.ahead, hrest, setting]
        exact x.isFinish
      subst finish
      exact ⟨ts, ⟨setting, by rw [parts, hrest]; rfl, left, trivial⟩, opened, names, trivial⟩
    | cons u rest =>
      have first : s.ahead c 0 = u := by
        rw [Setting.ahead, hrest]
        rfl
      rw [first] at ends seen
      subst seen
      have goes : ended = false := ends.symm.trans (x.goes u (left (hrest ▸ List.mem_cons_self)))
      subst goes
      by_cases before : u.span.start < stop
      · rw [decide_eq_true before]
        exact ⟨ts, setting, parts, left, opened, names, u, rest, hrest, before⟩
      · rw [decide_eq_false before]
        refine ⟨ts, ⟨setting, ?_, left, trivial⟩, opened, names, trivial⟩
        rw [parts, hrest, withoutTitles, withoutTitles, if_neg before, if_neg (Nat.not_lt_zero _)]
  · refine Triple.bind (R := fun _ => InTitle x D N calls stop fun _ => True) ?_ fun _ =>
      .pure fun s c h => h
    refine Triple.advance ?_ ?_
    · rintro s c ⟨-, -, -, -, -, -, t, rest, hrest, -⟩ none
      rw [none] at hrest
      cases hrest
    -- Passing over: the token is one of the title.
    · rintro s c t rest ⟨ts, setting, parts, left, opened, names, u, rest', same, before⟩ hrest
      obtain ⟨rfl, rfl⟩ := List.cons.inj (hrest.symm.trans same)
      refine ⟨ts, setting, ?_, fun v hv => left (hrest ▸ List.mem_cons_of_mem _ hv), opened, names, trivial⟩
      rw [parts, hrest, withoutTitles, if_pos before]
      rfl

/-! ### Constructs -/

section

variable (he : Tells x D e (Expr.names D)) (hr : Tells x D r (Stmt.names x.dialect D))

include he hr

theorem ifStmt_told (known : ∀ g, A g → (g 0).lexeme = .keyword .IF) :
    Triple (Passed x D N calls L A) (ifStmt e r) (SaidStmt x D N calls) := by
  refine Passed.passQuiet (.keyword .IF) rfl known fun t => ?_
  refine (ifBranch_told he hr t).bind fun first => Triple.passes.bind fun n => ?_
  -- The names of the branches read so far are all in the text.
  let I (bs : List IfBranch) : Assertion :=
    Told x D (N ++ first.names x.dialect D ++ bs.flatMap (IfBranch.names x.dialect D)) calls Any
  have elsifs : Triple (I []) (many (sees Keyword.ELSIF) (fun size => do
      let opener ← advance
      let branch ← ifBranch e r opener
      checkSize (size + 1) branch.span
      return [branch]) n 0) I := by
    refine Triple.many (I := I) (J := fun bs =>
      Told x D (N ++ first.names x.dialect D ++ bs.flatMap (IfBranch.names x.dialect D)) calls fun f =>
        (f 0).lexeme = .keyword .ELSIF) (fun bs => ?_) (fun bs size => ?_) n 0 []
    -- The question leaves what is known as it is, and adds that the next word is `ELSIF`.
    · refine (Passed.sees _).post fun more s c h => ?_
      cases more with
      | true => exact h.weaken (fun _ h => h) fun f hf => Terminal.is_lexeme hf.2
      | false => exact h.told
    · refine Passed.passQuiet (.keyword .ELSIF) rfl (fun g hg => hg) fun opener => ?_
      refine (ifBranch_told he hr opener).bind fun branch => ?_
      refine (Triple.checkSize _ _).bind fun _ => .pure fun s c h => h.mono ?_
      simp [List.flatMap_append]
  refine (elsifs.imp fun s c h => h.told.mono (List.subset_append_left _ _)).bind fun elsifs => ?_
  refine (elseBody_tells hr _ _).bind fun otherwise => (endConstruct_told t.span rfl).bind fun _ => ?_
  refine Passed.node _ fun span m hm => ?_
  simpa only [List.mem_append, Stmt.mem_names_ifThen, or_assoc] using hm

theorem caseStmt_told (known : ∀ g, A g → (g 0).lexeme = .keyword .CASE) :
    Triple (Passed x D N calls L A) (caseStmt e r) (SaidStmt x D N calls) := by
  refine Passed.passQuiet (.keyword .CASE) rfl known fun t => ?_
  refine ((he _ _).imp fun s c h => h.told).bind fun selector => ?_
  refine (Passed.expect Keyword.OF rfl).bind fun _ => Triple.passes.bind fun n => ?_
  -- The names of the branches read so far are all in the text.
  let I (bs : List CaseBranch) : Assertion :=
    Told x D (N ++ selector.names D ++ bs.flatMap (CaseBranch.names x.dialect D)) calls Any
  have branches : Triple (I []) (many (do
      let l ← lexeme
      return !(l.isFinish || l.isAmong [.ELSE, .END_CASE])) (fun size => do
        let branch ← caseBranch e r
        checkSize (size + 1) branch.span
        return [branch]) n 0) I := by
    refine Triple.many (I := I) (J := I) (fun bs => ?_) (fun bs size => ?_) n 0 []
    · refine Triple.lexeme.bind fun l => .pure fun s c h => ?_
      cases !(l.isFinish || l.isAmong [.ELSE, .END_CASE]) <;> exact h.1
    · refine (caseBranch_tells he hr _ _).bind fun branch => ?_
      refine (Triple.checkSize _ _).bind fun _ => .pure fun s c h => h.mono ?_
      simp [List.flatMap_append]
  refine (branches.imp fun s c h => h.told.mono (List.subset_append_left _ _)).bind fun bs => ?_
  refine (elseBody_tells hr _ _).bind fun otherwise => (endConstruct_told t.span rfl).bind fun _ => ?_
  refine Passed.node _ fun span m hm => ?_
  simpa only [List.mem_append, Stmt.mem_names_caseOf, or_assoc] using hm

theorem whileStmt_told (known : ∀ g, A g → (g 0).lexeme = .keyword .WHILE) :
    Triple (Passed x D N calls L A) (whileStmt e r) (SaidStmt x D N calls) := by
  refine Passed.passQuiet (.keyword .WHILE) rfl known fun t => ?_
  refine ((he _ _).imp fun s c h => h.told).bind fun condition => ?_
  refine (Passed.expect Keyword.DO rfl).bind fun _ => ?_
  refine ((statementList_tells hr _ _).imp fun s c h => h.told).bind fun body => ?_
  refine (endConstruct_told t.span rfl).bind fun _ => Passed.node _ fun span => ?_
  rw [Stmt.names_whileLoop, List.append_assoc]
  exact List.Subset.refl _

theorem repeatStmt_told (known : ∀ g, A g → (g 0).lexeme = .keyword .REPEAT) :
    Triple (Passed x D N calls L A) (repeatStmt e r) (SaidStmt x D N calls) := by
  refine Passed.passQuiet (.keyword .REPEAT) rfl known fun t => ?_
  refine ((statementList_tells hr _ _).imp fun s c h => h.told).bind fun body => ?_
  refine (Passed.expect Keyword.UNTIL rfl).bind fun _ => ?_
  refine ((he _ _).imp fun s c h => h.told).bind fun condition => ?_
  refine (Passed.accept Mark.semicolon rfl).bind fun semicolon => ?_
  refine Triple.imp (P := Told x D (N ++ Stmt.namesAll x.dialect D body ++ condition.names D) calls Any) ?_ ?_
  · refine (endConstruct_told t.span rfl).bind fun _ => Passed.node _ fun span m hm => ?_
    simpa only [List.mem_append, Stmt.mem_names_repeatLoop, or_assoc] using hm
  · intro s c h
    cases semicolon <;> exact h.told

/-- The counter of a loop is told, though it is no expression of the tree. -/
theorem forStmt_told (known : ∀ g, A g → (g 0).lexeme = .keyword .FOR) :
    Triple (Passed x D N calls L A) (forStmt e r) (SaidStmt x D N calls) := by
  refine Passed.passQuiet (.keyword .FOR) rfl known fun t => Passed.dialect ?_
  have counted : Triple (Told x D N calls Any) (do
      let control ← expectAnyName "loop variable"
      let _ ← expect Mark.assign
      let start ← e
      let _ ← expect Keyword.TO
      let stop ← e
      let step ← if ← accept Keyword.BY then some <$> e else pure none
      let _ ← expect Keyword.DO
      let body ← statementList r
      endConstruct .END_FOR t.span
      node t.span fun s => Stmt.forLoop s control.nameText start stop step body)
      (SaidStmt x D N calls) := by
    refine (expectAnyName_told _).bind fun control => ?_
    refine (Passed.expect Mark.assign rfl).bind fun _ => ?_
    refine ((he _ _).imp fun s c h => h.told).bind fun start => (Passed.expect Keyword.TO rfl).bind fun _ => ?_
    refine ((he _ _).imp fun s c h => h.told).bind fun stop => ?_
    -- the names up to the body, in the order in which they are told
    let before (step : Option Expr) : List String := N ++ [control.nameText] ++ start.names D ++
      stop.names D ++ step.toList.flatMap (Expr.names D)
    refine (Passed.accept Keyword.BY rfl).bind fun by_ => ?_
    refine Triple.optional (R := fun step => Told x D (before step) calls Any) (fun yes => ?_)
      (fun no s c h => ?_) fun step => ?_
    · subst yes
      refine ((he _ _).imp fun s c h => h.told).post fun y s c h => h.mono ?_
      simp [before]
    · rw [Bool.not_eq_true] at no
      subst no
      exact h.told.mono (List.subset_append_left _ _)
    · refine (Passed.expect Keyword.DO rfl).bind fun _ => ?_
      refine ((statementList_tells hr _ _).imp fun s c h => h.told).bind fun body => ?_
      refine (endConstruct_told t.span rfl).bind fun _ => Passed.node _ fun span => ?_
      rw [Stmt.names_forLoop]
      simp [before]
  refine .ite (fun _ => ?_) fun _ => counted.imp fun s c h => h.told
  refine (Passed.accept Mark.hash rfl).bind fun hash => counted.imp fun s c h => ?_
  cases hash <;> exact h.told

omit he in
/-- A region tells the names of its statements; its title tells nothing. -/
theorem regionStmt_told (known : ∀ g, A g → (g 0).lexeme = .keyword .REGION) :
    Triple (Passed x D N calls L A) (regionStmt r) (SaidStmt x D N calls) := by
  refine (opensRegion known).bind fun t => ?_
  refine Triple.bind (R := fun titled => InTitle x D N calls titled.2 fun _ => True) ?_ fun titled => ?_
  · rintro s c titled c' h hrun
    cases hrun
    obtain ⟨ts, rfl, rest⟩ := h
    exact ⟨ts, rfl, rest⟩
  obtain ⟨title, stop⟩ := titled
  refine (skipBefore_told stop).bind fun _ => ?_
  refine (statementList_tells hr _ _).bind fun body => ?_
  refine (endConstruct_told t.span rfl).bind fun _ => Passed.node _ fun span => ?_
  rw [Stmt.names_region]
  exact List.Subset.refl _

omit hr in
/-- A statement that begins with no word of its own. -/
theorem plainStmt_told :
    Triple (Told x D N calls A) (plainStmt e) (SaidStmt x D N calls) := by
  refine Passed.peek.bind fun t => .ite (fun semicolon => ?_) fun _ => ?_
  · have semicolon : t.lexeme = .mark .semicolon := Terminal.is_lexeme semicolon
    refine Passed.passQuiet (.mark .semicolon) rfl (fun g hg => hg.2 ▸ semicolon) fun _ => ?_
    exact Passed.node _ fun span => List.subset_append_left _ _
  · refine Passed.dialect ((Passed.lexemeAt 1).bind fun next => .ite (fun label => ?_) fun _ => ?_)
    · simp only [Bool.and_eq_true] at label
      obtain ⟨⟨blocks, name⟩, colon⟩ := label
      refine (Passed.name (List.subset_append_left N [t.text])
        (fun g hg => by rw [hg.1.2]; exact Lexeme.isName_iff.1 name)
        fun g ts after hg _ _ _ _ => by rw [hg.1.2]; simp).bind fun _ => ?_
      refine Passed.passQuiet (.mark .colon) rfl (fun g hg => ?_) fun _ => ?_
      · exact Terminal.is_lexeme (hg.2.symm ▸ colon)
      · exact nodeLabelled blocks fun _ => ⟨rfl, rfl⟩
    · exact .ite (fun _ => assignmentOrCall_told he) fun _ => .failInvalid _

theorem statementBody_tells : Tells x D (statementBody e r) (Stmt.names x.dialect D) := by
  intro N calls
  refine Passed.lexeme.bind fun l => ?_
  split
  · exact ifStmt_told he hr fun g hg => hg.2
  · exact caseStmt_told he hr fun g hg => hg.2
  · exact forStmt_told he hr fun g hg => hg.2
  · exact whileStmt_told he hr fun g hg => hg.2
  · exact repeatStmt_told he hr fun g hg => hg.2
  · exact oneWord_told rfl (fun _ => ⟨rfl, rfl, rfl⟩) fun g hg => hg.2
  · exact oneWord_told rfl (fun _ => ⟨rfl, rfl, rfl⟩) fun g hg => hg.2
  · exact leaveStmt_told he fun g hg => hg.2
  · exact gotoStmt_told fun g hg => hg.2
  · exact regionStmt_told hr fun g hg => hg.2
  · exact plainStmt_told he

end

/-- A statement tells its names, whatever is open around it. -/
theorem statement_tells (levels : Nat) : Tells x D (statement levels) (Stmt.names x.dialect D) := by
  induction levels with
  | zero => exact tooDeep_tells
  | succ levels ih => exact (statementBody_tells (expression_tells levels) ih).nested

theorem body_tells (levels : Nat) (ends : List Keyword) :
    Tells x D (body levels ends) (Stmt.namesAll x.dialect D) := by
  intro N calls
  refine (statementList_tells (statement_tells levels) N calls).bind fun first => ?_
  refine Triple.passes.bind fun n => ?_
  refine (stray_never (fun s c h => h.strict) _ ends n _).bind fun others =>
    .pure fun s c ⟨same, h⟩ => ?_
  rwa [same, List.append_nil]

/-- The statements of a text tell all names in it that stand for variables. -/
theorem allStatements_told (levels : Nat) (declared : List String) :
    Triple (Told x D [] [] Any) (allStatements levels declared)
      fun ss _ _ => Names x D x.all (Stmt.namesAll x.dialect D ss) := by
  refine (Passed.stable.declaring declared (body_tells levels [] [] [])
    fun _ => Passed.stable).bind fun ss => ?_
  refine (strictly_finishText (fun s c h => h.strict) ?_).bind fun _ => .pure fun s c h => h
  refine Triple.atEnd.bind fun ended => .ite (fun _ => .failExpecting _) fun no => ?_
  rw [Bool.not_eq_true, Bool.not_eq_false'] at no
  refine .pure fun s c ⟨⟨ts, place, _, names, _⟩, ends⟩ => ?_
  rwa [place.all (ends.trans no)]

end Plc.Grammar

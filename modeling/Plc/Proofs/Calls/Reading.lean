/-
One text, read with different names declared.

Declared names are asked for in one place only, when a statement turns out to be a call.  What is read
after that is the same either way, but the call of a function counts one more node; so a bound may end
the one reading and not the other.  Otherwise both readings go on side by side to the end.

* `Renamed` — two cursors that differ in the names declared and in the nodes counted;
* `Abreast` — two rules end alike from such cursors, unless a bound ends one of them;
* `abreast` — every rule that does not ask for declared names is alike to itself;
* `statement_abreast` — one statement;
* `Reading.statements_sameButCalls` — whole texts.
-/
import Plc.Proofs.Calls.Tree
import Plc.Proofs.Grammar.StmtCongruence
import Plc.Proofs.Limits.Raised

namespace Plc.Grammar

variable {α β : Type}

/-- The same place of a reading, with other names declared and another number of nodes perhaps. -/
def Renamed (ds ds' : List (List String)) (c c' : Cursor) : Prop :=
  c.declared = ds ∧ ∃ n, c' = { c with declared := ds', usage := { c.usage with nodes := n } }

/-- Two runs end at the same place, with results that belong together or with one fault, or a bound has
ended one of them. -/
inductive EndsAbreast (ds ds' : List (List String)) (R : α → α → Prop) :
    EStateM.Result Fault Cursor α → EStateM.Result Fault Cursor α → Prop
  | ok {a a' : α} {c c' : Cursor} (h : R a a') (place : Renamed ds ds' c c') :
    EndsAbreast ds ds' R (.ok a c) (.ok a' c')
  | error (f : Fault) {c c' : Cursor} (place : Renamed ds ds' c c') :
    EndsAbreast ds ds' R (.error f c) (.error f c')
  | left (e : LimitError) (c : Cursor) (run' : EStateM.Result Fault Cursor α) :
    EndsAbreast ds ds' R (.error (.limit e) c) run'
  | right (run : EStateM.Result Fault Cursor α) (e : LimitError) (c' : Cursor) :
    EndsAbreast ds ds' R run (.error (.limit e) c')

/-- From the same place, the rules end alike, unless a bound ends one of them. -/
def Abreast (ds ds' : List (List String)) (R : α → α → Prop) (r r' : Rule α) : Prop :=
  ∀ s c c', Renamed ds ds' c c' → EndsAbreast ds ds' R (r s c) (r' s c')

namespace Abreast

variable {ds ds' : List (List String)} {R : α → α → Prop} {T : β → β → Prop}
variable {r r' : Rule α} {k k' : α → Rule β}

theorem bind (hr : Abreast ds ds' R r r') (hk : ∀ a a', R a a' → Abreast ds ds' T (k a) (k' a')) :
    Abreast ds ds' T (r >>= k) (r' >>= k') := by
  intro s c c' place
  have first := hr s c c' place
  rw [bind_apply, bind_apply]
  generalize r s c = run at first ⊢
  generalize r' s c' = run' at first ⊢
  cases first with
  | ok h place => exact hk _ _ h s _ _ place
  | error f place => exact .error f place
  | left e c run' => exact .left e c _
  | right run e c' => exact .right _ e c'

/-- What is given on both sides is the same. -/
theorem same (hr : Abreast ds ds' Eq r r') (hk : ∀ a, Abreast ds ds' T (k a) (k' a)) :
    Abreast ds ds' T (r >>= k) (r' >>= k') := by
  refine hr.bind ?_
  rintro a _ rfl
  exact hk a

theorem map {g g' : α → β} (hr : Abreast ds ds' R r r') (hg : ∀ a a', R a a' → T (g a) (g' a')) :
    Abreast ds ds' T (g <$> r) (g' <$> r') := by
  rw [map_eq_pure_bind, map_eq_pure_bind]
  exact hr.bind fun a a' h _ _ _ place => .ok (hg a a' h) place

theorem pure {a a' : α} (h : R a a') : Abreast ds ds' R (pure a) (pure a') :=
  fun _ _ _ place => .ok h place

theorem throw (f : Fault) : Abreast ds ds' R (throw f : Rule α) (throw f) :=
  fun _ _ _ place => .error f place

theorem ite {p : Prop} [Decidable p] {s s' : Rule α} (hr : Abreast ds ds' R r r')
    (hs : Abreast ds ds' R s s') : Abreast ds ds' R (if p then r else s) (if p then r' else s') := by
  split
  · exact hr
  · exact hs

theorem bracket {es es' : List (List String)} {before before' after after' : Cursor → Cursor}
    (hb : ∀ c c', Renamed ds ds' c c' → Renamed es es' (before c) (before' c'))
    (ha : ∀ c c', Renamed es es' c c' → Renamed ds ds' (after c) (after' c'))
    (hr : Abreast es es' R r r') :
    Abreast ds ds' R (bracket before after r) (bracket before' after' r') := by
  intro s c c' place
  have inner := hr s _ _ (hb c c' place)
  rw [bracket_apply, bracket_apply]
  generalize r s (before c) = run at inner ⊢
  generalize r' s (before' c') = run' at inner ⊢
  cases inner with
  | ok h place => exact .ok h (ha _ _ place)
  | error f place => exact .error f (ha _ _ place)
  | left e c run' => exact .left e _ _
  | right run e c' => exact .right _ e _

/-- Other names are declared on either side. -/
theorem declaring (names names' : List String)
    (hr : Abreast (names :: ds) (names' :: ds') R r r') :
    Abreast ds ds' R (declaring names r) (declaring names' r') := by
  refine bracket ?_ ?_ hr
  · rintro c _ ⟨rfl, n, rfl⟩
    exact ⟨rfl, n, rfl⟩
  · rintro c _ ⟨same, n, rfl⟩
    exact ⟨congrArg List.tail same, n, rfl⟩

theorem nested (hr : Abreast ds ds' R r r') : Abreast ds ds' R (nested r) (nested r') := by
  refine bracket ?_ ?_ hr
  · rintro c _ ⟨names, n, rfl⟩
    exact ⟨names, n, rfl⟩
  · rintro c _ ⟨names, n, rfl⟩
    exact ⟨names, n, rfl⟩

theorem advance : Abreast ds ds' Eq advance advance := by
  rintro s ⟨rest, _, _, _, _, _, _⟩ _ ⟨names, n, rfl⟩
  cases rest with
  | nil => exact .ok rfl ⟨names, n, rfl⟩
  | cons t ts => exact .ok rfl ⟨names, n, rfl⟩

theorem takeWaiting : Abreast ds ds' Eq takeWaiting takeWaiting := by
  rintro s c _ ⟨names, n, rfl⟩
  rw [takeWaiting_apply, takeWaiting_apply]
  dsimp only
  cases c.pragmas.lookup c.index with
  | none => exact .ok rfl ⟨names, n, rfl⟩
  | some ts => exact .ok rfl ⟨names, n, rfl⟩

/-- A value above its bound ends the reading on its side; otherwise both sides go on. -/
theorem checkLimit (kind : LimitKind) (value value' : Nat) (span span' : Span) :
    Abreast ds ds' Eq (checkLimit kind value span) (checkLimit kind value' span') := by
  intro s c c' place
  rw [checkLimit_apply, checkLimit_apply]
  cases s.limits.check kind value span with
  | error e => exact .left e c _
  | ok _ =>
    cases s.limits.check kind value' span' with
    | error e => exact .right _ e c'
    | ok _ => exact .ok rfl place

theorem checkSize (size : Nat) (span span' : Span) :
    Abreast ds ds' Eq (checkSize size span) (checkSize size span') :=
  checkLimit .collectionSize size size span span'

theorem recordNode (span : Span) : Abreast ds ds' Eq (recordNode span) (recordNode span) := by
  rintro s c _ ⟨names, n, rfl⟩
  exact checkLimit .nodes _ _ span span s _ _ ⟨names, n + 1, rfl⟩

theorem limit {r : Rule α} (h : ∀ s c, ∃ e c', r s c = .error (.limit e) c') (r' : Rule α) :
    Abreast ds ds' R r r' := by
  intro s c c' _
  obtain ⟨e, c'', ends⟩ := h s c
  rw [ends]
  exact .left e c'' _

/-- A node is built, and nothing else changes, or there is one too many. -/
theorem node_counts (start : Span) (build : Span → α) (s : Setting) (c : Cursor) :
    (∃ e c', Grammar.node start build s c = .error (.limit e) c') ∨
      ∃ a n, Grammar.node start build s c =
        .ok a { c with usage := { c.usage with nodes := n } } := by
  show (∃ e c', (Grammar.checkLimit .nodes c.usage.addNode.nodes _ >>= fun _ => Pure.pure (build _))
    s { c with usage := c.usage.addNode } = .error (.limit e) c') ∨ ∃ a n,
      (Grammar.checkLimit .nodes c.usage.addNode.nodes _ >>= fun _ => Pure.pure (build _)) s
        { c with usage := c.usage.addNode } = .ok a { c with usage := { c.usage with nodes := n } }
  rw [bind_apply, checkLimit_apply]
  cases s.limits.check .nodes c.usage.addNode.nodes _ with
  | error e => exact .inl ⟨e, _, rfl⟩
  | ok _ => exact .inr ⟨_, _, rfl⟩

/-- A node that is built on the one side only. -/
theorem node_left {γ : Type} {r' : Rule β} {start : Span} {build : Span → γ} {k : γ → Rule β}
    (hk : ∀ a, Abreast ds ds' T (k a) r') :
    Abreast ds ds' T (Grammar.node start build >>= k) r' := by
  rintro s c _ ⟨names, n, rfl⟩
  rw [bind_apply]
  obtain ⟨e, c', ends⟩ | ⟨a, m, ends⟩ := node_counts start build s c
  · rw [ends]
    exact .left e c' _
  · rw [ends]
    exact hk a s _ _ ⟨names, n, rfl⟩

/-- A node that is built on the other side only. -/
theorem node_right {γ : Type} {r : Rule β} {start : Span} {build : Span → γ} {k' : γ → Rule β}
    (hk : ∀ a, Abreast ds ds' T r (k' a)) :
    Abreast ds ds' T r (Grammar.node start build >>= k') := by
  rintro s c _ ⟨names, n, rfl⟩
  rw [bind_apply]
  obtain ⟨e, c', ends⟩ | ⟨a, m, ends⟩ :=
    node_counts start build s { c with declared := ds', usage := { c.usage with nodes := n } }
  · rw [ends]
    exact .right _ e c'
  · rw [ends]
    exact hk a s _ _ ⟨names, m, rfl⟩

end Abreast

/-- Every rule that does not ask for declared names is alike to itself. -/
theorem abreast : Congruence fun _ (r r' : Rule _) => ∀ ds ds', Abreast ds ds' Eq r r' := by
  -- A rule that only reads gives the same on both sides, as it looks at neither the declared names
  -- nor the count of nodes.
  have still {α : Type} {r : Rule α} (f : Setting → Cursor → α)
      (reads : ∀ s c, r s c = .ok (f s c) c)
      (blind : ∀ s c ds n, f s { c with declared := ds, usage := { c.usage with nodes := n } } = f s c)
      (ds ds' : List (List String)) : Abreast ds ds' Eq r r := by
    rintro s c _ ⟨names, n, rfl⟩
    rw [reads, reads]
    exact .ok (blind s c ds' n).symm ⟨names, n, rfl⟩
  refine Steps.congruence ?_ (still (fun s _ => s.limits) (fun _ _ => rfl) fun _ _ _ _ => rfl)
  exact {
    pure := fun _ _ _ => .pure rfl
    bind := fun hr hf ds ds' => (hr ds ds').same fun a => hf a ds ds'
    throw := fun f _ _ => .throw f
    nested := fun hr ds ds' => .nested (hr ds ds')
    declaring := fun names hr ds ds' => .declaring names names (hr (names :: ds) (names :: ds'))
    sourceText := still (fun s _ => s.source) (fun _ _ => rfl) fun _ _ _ _ => rfl
    dialect := still (fun s _ => s.dialect) (fun _ _ => rfl) fun _ _ _ _ => rfl
    lastStop := still (fun _ c => c.lastStop) (fun _ _ => rfl) fun _ _ _ _ => rfl
    tokensLeft := still (fun _ c => c.rest) (fun _ _ => rfl) fun _ _ _ _ => rfl
    peekAt := fun n => still (fun s c => c.rest.getD n s.finish) (fun _ _ => rfl) fun _ _ _ _ => rfl
    advance := fun _ _ => .advance
    takeWaiting := fun _ _ => .takeWaiting
    recordNode := fun span _ _ => .recordNode span
    checkLimit := fun kind value span _ _ => .checkLimit kind value value span span
    tooManyPasses := fun _ _ => .limit (fun _ c => ⟨_, c, rfl⟩) _
    tooDeep := fun _ _ => .limit (fun _ c => ⟨_, c.enter, rfl⟩) _ }

namespace Abreast

variable {ds ds' : List (List String)} {R : α → α → Prop}

/-! ### Recovery and loops -/

theorem report (e : SyntaxError) : Abreast ds ds' Eq (report e) (report e) := by
  rintro s c _ ⟨names, n, rfl⟩
  exact .ok rfl ⟨names, n, rfl⟩

theorem resumeAfter (e : SyntaxError) (start : Nat) (stops : Lexeme → Bool) (pastSemicolon : Bool) :
    Abreast ds ds' Eq (resumeAfter e start stops pastSemicolon)
      (resumeAfter e start stops pastSemicolon) := by
  have cursor : Abreast ds ds' (fun c c' => c.index = c'.index) (get : Rule Cursor) get := by
    rintro s c _ ⟨names, n, rfl⟩
    exact .ok rfl ⟨names, n, rfl⟩
  unfold Grammar.resumeAfter
  refine (report e).same fun _ => (abreast.skipTo_rel stops pastSemicolon _ _).same fun _ => ?_
  refine cursor.bind fun c c' index => (abreast.atEnd_rel _ _).same fun b => ?_
  rw [index]
  exact ite (advance.same fun _ => pure rfl) (pure rfl)

theorem recovering {r r' : Rule α} (stops : Lexeme → Bool) (pastSemicolon : Bool)
    (hr : Abreast ds ds' R r r') :
    Abreast ds ds' (Option.Rel R) (recovering stops pastSemicolon r)
      (recovering stops pastSemicolon r') := by
  intro s c c' place
  have inner := hr s c c' place
  have index : c'.index = c.index := by
    obtain ⟨-, n, rfl⟩ := place
    rfl
  unfold Grammar.recovering
  rw [index]
  generalize r s c = run at inner ⊢
  generalize r' s c' = run' at inner ⊢
  cases inner with
  | ok h place => exact .ok (.some h) place
  | left e d run' => exact .left e d _
  | right run e d => exact .right _ e d
  | error f place =>
    rename_i d d'
    cases f with
    | limit e => exact .left e d _
    | unreadableDigits => exact .error .unreadableDigits place
    | infiniteDuration => exact .error .infiniteDuration place
    | endless => exact .error .endless place
    | grammar e =>
      dsimp only
      split
      · -- The error is the same, and what is skipped after it is.
        have on := resumeAfter e c.index stops pastSemicolon s d d' place
        generalize Grammar.resumeAfter e c.index stops pastSemicolon s d = run at on ⊢
        generalize Grammar.resumeAfter e c.index stops pastSemicolon s d' = run' at on ⊢
        cases on with
        | ok _ place => exact .ok .none place
        | error f place => exact .error f place
        | left e d run' => exact .left e d _
        | right run e d => exact .right _ e d
      · exact .error (.grammar e) place

theorem many {f g g' : α → α} {p : α → Prop} {more more' : Rule Bool}
    {item item' : Nat → Rule (List α)} (hmore : Abreast ds ds' Eq more more')
    (hitem : ∀ size, Abreast ds ds' (TwinsAll f g g' p) (item size) (item' size)) (n size : Nat) :
    Abreast ds ds' (TwinsAll f g g' p) (many more item n size) (many more' item' n size) := by
  have past : Abreast ds ds' (TwinsAll f g g' p) tooManyPasses tooManyPasses :=
    .limit (fun _ c => ⟨_, c, rfl⟩) _
  induction n generalizing size with
  | zero =>
    unfold Grammar.many
    exact hmore.same fun b => ite past (pure .nil)
  | succ n ih =>
    unfold Grammar.many
    refine hmore.same fun b => ite ?_ (pure .nil)
    refine (hitem size).bind fun xs xs' first => ?_
    rw [← first.length_eq]
    exact (ih _).bind fun ys ys' others => pure (first.append others)

theorem failExpecting (expected : String) :
    Abreast ds ds' R (failExpecting expected) (failExpecting expected) :=
  (abreast.unexpected_rel expected _ _).same fun _ => throw _

theorem failInvalid (kind : SyntaxError.Kind) :
    Abreast ds ds' R (failInvalid kind) (failInvalid kind) := by
  refine (abreast.peek_rel _ _).same fun t => ?_
  split <;> exact throw _

theorem passes : Abreast ds ds' Eq passes passes := by
  rintro s c _ ⟨names, n, rfl⟩
  exact .ok rfl ⟨names, n, rfl⟩

theorem node {start : Span} {build build' : Span → α} (h : ∀ s, R (build s) (build' s)) :
    Abreast ds ds' R (node start build) (node start build') :=
  (abreast.spanFrom_rel start _ _).same fun s => (recordNode s).same fun _ => pure (h s)

end Abreast

/-! ### Statements -/

section

variable {D D' : List String}

/-- The rules give statements that differ in what the declared names make of calls. -/
abbrev Deciding (D D' : List String) (s : Rule Stmt) : Prop :=
  Abreast [D] [D'] (Stmt.Differs D D') s s

/-- The rules give lists of statements that differ in what the declared names make of calls. -/
abbrev DecidingAll (D D' : List String) (b : Rule (List Stmt)) : Prop :=
  Abreast [D] [D'] (Stmt.DifferAll D D') b b

theorem isDeclared_abreast (name : String) :
    Abreast [D] [D'] (fun b b' => b = D.contains name ∧ b' = D'.contains name) (isDeclared name)
      (isDeclared name) := by
  rintro s c _ ⟨names, n, rfl⟩
  refine .ok ⟨?_, ?_⟩ ⟨names, n, rfl⟩
  · rw [names, List.any_cons, List.any_nil, Bool.or_false]
  · exact Bool.or_false _

/-- The readings part at a call, and come together behind its semicolon. -/
theorem assignmentOrCall_abreast (levels : Nat) :
    Deciding D D' (assignmentOrCall (expression levels)) := by
  have he := abreast.expression_rel (.refl levels)
  refine (abreast.peek_rel _ _).same fun start => ?_
  refine (abreast.variableWith_rel he _ _).same fun target => ?_
  refine (abreast.sees_rel _ _ _).same fun b => .ite ?_ ?_
  -- Up to the question whether the name is declared the readings are the same, so both have the
  -- same variable.
  · cases path : target.path? with
    | none => exact (abreast.sourceText _ _).same fun text => .throw _
    | some name =>
      refine (abreast.callArgs_rel he _ _).same fun args => ?_
      refine (isDeclared_abreast _).bind ?_
      rintro _ _ ⟨rfl, rfl⟩
      -- Whichever statement is built, it is the decision on the same call.
      have last {t t' : Span → Stmt}
          (h : ∀ s, (t s).blurred = (Stmt.invoke s target args).decided D)
          (h' : ∀ s, (t' s).blurred = (Stmt.invoke s target args).decided D') :
          Abreast [D] [D'] (Stmt.Differs D D') (expectSemicolon >>= fun _ => node start.span t)
            (expectSemicolon >>= fun _ => node start.span t') := by
        refine (abreast.expectSemicolon_rel _ _).same fun _ => .node fun s => ?_
        refine ⟨.invoke s target args, List.forall_mem_singleton.2 ?_, h s, h' s⟩
        exact Option.isSome_iff_exists.2 ⟨name, path⟩
      -- The four cases of the two answers; a call that is an expression makes one more node, on the
      -- side where it is none.
      by_cases known : D.contains (target.root?.getD name) = true
      · by_cases known' : D'.contains (target.root?.getD name) = true
        · rw [if_pos known, if_pos known']
          exact last (fun s => Stmt.blurred_invoke path known s args)
            fun s => Stmt.blurred_invoke path known' s args
        · rw [if_pos known, if_neg known']
          exact .node_right fun callSpan => last (fun s => Stmt.blurred_invoke path known s args)
            fun s => Stmt.blurred_call path known' s callSpan args
      · by_cases known' : D'.contains (target.root?.getD name) = true
        · rw [if_neg known, if_pos known']
          exact .node_left fun callSpan => last (fun s => Stmt.blurred_call path known s callSpan args)
            fun s => Stmt.blurred_invoke path known' s args
        · rw [if_neg known, if_neg known']
          refine (abreast.node_rel _ _ _ _).same fun callSpan => ?_
          exact last (fun s => Stmt.blurred_call path known s callSpan args)
            fun s => Stmt.blurred_call path known' s callSpan args
  · refine (abreast.lexeme_rel _ _).same fun l => ?_
    cases AssignOp.ofLexeme? l with
    | none => exact .failExpecting _
    | some op =>
      refine Abreast.advance.same fun _ => (he _ _).same fun value => ?_
      refine (abreast.expectSemicolon_rel _ _).same fun _ => .node fun s => ?_
      exact .leaf (fun _ => rfl) (List.forall_mem_singleton.2 trivial)

/-- A statement without calls and without bodies. -/
theorem leaf_abreast {start : Span} {build : Span → Stmt}
    (kept : ∀ s f, (build s).mapCalls f = build s) (undecided : ∀ s, (build s).Undecided) :
    Deciding D D' (node start build) :=
  .node fun s => .leaf (kept s) (undecided s)

theorem plainStmt_abreast (levels : Nat) : Deciding D D' (plainStmt (expression levels)) := by
  refine (abreast.peek_rel _ _).same fun t => .ite ?_ ?_
  · exact Abreast.advance.same fun _ =>
      leaf_abreast (fun _ _ => rfl) fun _ => List.forall_mem_singleton.2 trivial
  refine (abreast.dialect _ _).same fun d => (abreast.lexemeAt_rel _ _ _).same fun next => .ite ?_ ?_
  · exact Abreast.advance.same fun _ => Abreast.advance.same fun _ =>
      leaf_abreast (fun _ _ => rfl) fun _ => List.forall_mem_singleton.2 trivial
  · exact .ite (assignmentOrCall_abreast levels) (.failInvalid _)

theorem oneWord_abreast {build : Span → Stmt} (kept : ∀ s f, (build s).mapCalls f = build s)
    (undecided : ∀ s, (build s).Undecided) : Deciding D D' (oneWord build) :=
  Abreast.advance.same fun _ => (abreast.expectSemicolon_rel _ _).same fun _ =>
    leaf_abreast kept undecided

theorem leaveStmt_abreast (levels : Nat) : Deciding D D' (leaveStmt (expression levels)) := by
  refine Abreast.advance.same fun t => (abreast.lexeme_rel _ _).same fun l => ?_
  have last (value : Option Expr) :
      Deciding D D' (expectSemicolon >>= fun _ => node t.span fun s => .leave s value) :=
    (abreast.expectSemicolon_rel _ _).same fun _ =>
      leaf_abreast (fun _ _ => rfl) fun _ => List.forall_mem_singleton.2 trivial
  refine .ite ((abreast.pure none _ _).same last) ?_
  exact (abreast.map some (abreast.expression_rel (.refl levels)) _ _).same last

theorem gotoStmt_abreast : Deciding D D' gotoStmt := by
  refine Abreast.advance.same fun _ => (abreast.expectName_rel _ _ _).same fun label => ?_
  exact (abreast.expectSemicolon_rel _ _).same fun _ =>
    leaf_abreast (fun _ _ => rfl) fun _ => List.forall_mem_singleton.2 trivial

/-! ### Lists of statements -/

variable {s : Rule Stmt}

theorem statementListUntil_abreast {stop : Rule Bool} (hstop : ∀ ds ds', Abreast ds ds' Eq stop stop)
    (hs : Deciding D D' s) : DecidingAll D D' (statementListUntil stop s) := by
  refine Abreast.passes.same fun n => .many ?_ (fun size => ?_) n 0
  · refine (abreast.lexeme_rel _ _).same fun l => .ite (.pure rfl) ?_
    exact (hstop _ _).same fun b => .pure rfl
  · -- A statement is dropped on both sides or on neither, and a list is as long on both.
    refine (Abreast.recovering _ _ hs).bind ?_
    rintro _ _ (same | _)
    · exact (Abreast.checkSize _ _ _).same fun _ => .pure (.singleton same)
    · exact .pure .nil

theorem statementList_abreast (hs : Deciding D D' s) : DecidingAll D D' (statementList s) :=
  statementListUntil_abreast (abreast.pure false) hs

/-! ### Constructs -/

theorem ifBranch_abreast (levels : Nat) (hs : Deciding D D' s) (opener : Token) :
    Abreast [D] [D'] (IfBranch.Differs D D') (ifBranch (expression levels) s opener)
      (ifBranch (expression levels) s opener) := by
  refine (abreast.expression_rel (.refl levels) _ _).same fun condition => ?_
  refine (abreast.expect_rel _ _ _).same fun _ => ?_
  exact (statementList_abreast hs).bind fun body body' h => .node fun place => .mk place condition h

theorem elseBody_abreast (hs : Deciding D D' s) :
    Abreast [D] [D'] (Option.Rel (Stmt.DifferAll D D')) (elseBody s) (elseBody s) := by
  refine (abreast.accept_rel _ _ _).same fun b => .ite ?_ (.pure .none)
  exact (statementList_abreast hs).map fun _ _ h => .some h

theorem ifStmt_abreast (levels : Nat) (hs : Deciding D D' s) :
    Deciding D D' (ifStmt (expression levels) s) := by
  refine Abreast.advance.same fun t => (ifBranch_abreast levels hs t).bind fun first first' h => ?_
  refine Abreast.passes.same fun n => ?_
  refine Abreast.bind (R := IfBranch.DifferAll D D')
    (.many (abreast.sees_rel _ _ _) (fun size => ?_) n 0) fun elsifs elsifs' he => ?_
  · refine Abreast.advance.same fun opener => ?_
    refine (ifBranch_abreast levels hs opener).bind fun branch branch' same => ?_
    exact (Abreast.checkSize _ _ _).same fun _ => .pure (.singleton same)
  refine (elseBody_abreast hs).bind fun otherwise otherwise' ho => ?_
  exact (abreast.endConstruct_rel _ _ _ _).same fun _ => .node fun place => .ifThen place h he ho

theorem caseBranch_abreast (levels : Nat) (hs : Deciding D D' s) :
    Abreast [D] [D'] (CaseBranch.Differs D D') (caseBranch (expression levels) s)
      (caseBranch (expression levels) s) := by
  refine (abreast.peek_rel _ _).same fun start => ?_
  have selector := abreast.caseSelector_rel (abreast.expression_rel (.refl levels))
  refine (abreast.commaList _ selector _ _).same fun selectors => ?_
  refine (abreast.expect_rel _ _ _).same fun _ => ?_
  refine (statementListUntil_abreast ?_ hs).bind fun body body' h =>
    .node fun place => .mk place selectors h
  exact abreast.bind abreast.dialect fun d => abreast.bind abreast.tokensLeft fun ts => abreast.pure _

theorem caseStmt_abreast (levels : Nat) (hs : Deciding D D' s) :
    Deciding D D' (caseStmt (expression levels) s) := by
  refine Abreast.advance.same fun t => ?_
  refine (abreast.expression_rel (.refl levels) _ _).same fun selector => ?_
  refine (abreast.expect_rel _ _ _).same fun _ => Abreast.passes.same fun n => ?_
  refine Abreast.bind (R := CaseBranch.DifferAll D D')
    (.many ?_ (fun size => ?_) n 0) fun branches branches' h => ?_
  · exact (abreast.lexeme_rel _ _).same fun l => .pure rfl
  · refine (caseBranch_abreast levels hs).bind fun branch branch' same => ?_
    exact (Abreast.checkSize _ _ _).same fun _ => .pure (.singleton same)
  refine (elseBody_abreast hs).bind fun otherwise otherwise' ho => ?_
  exact (abreast.endConstruct_rel _ _ _ _).same fun _ =>
    .node fun place => .caseOf place selector h ho

theorem forStmt_abreast (levels : Nat) (hs : Deciding D D' s) :
    Deciding D D' (forStmt (expression levels) s) := by
  have he := abreast.expression_rel (.refl levels)
  refine Abreast.advance.same fun t => (abreast.dialect _ _).same fun d => ?_
  -- A dialect may allow a mark before the counter; all the rest is common.
  have rest : Deciding D D' (do
      let control ← expectAnyName "loop variable"
      let _ ← expect Mark.assign
      let start ← expression levels
      let _ ← expect Keyword.TO
      let stop ← expression levels
      let step ← if ← accept Keyword.BY then some <$> expression levels else pure none
      let _ ← expect Keyword.DO
      let body ← statementList s
      endConstruct .END_FOR t.span
      node t.span fun s => .forLoop s control.nameText start stop step body) := by
    refine (abreast.expectAnyName_rel _ _ _).same fun control => ?_
    refine (abreast.expect_rel _ _ _).same fun _ => (he _ _).same fun start => ?_
    refine (abreast.expect_rel _ _ _).same fun _ => (he _ _).same fun stop => ?_
    refine (abreast.accept_rel _ _ _).same fun b => ?_
    have last (step : Option Expr) : Deciding D D' (do
        let _ ← expect Keyword.DO
        let body ← statementList s
        endConstruct .END_FOR t.span
        node t.span fun s => .forLoop s control.nameText start stop step body) := by
      refine (abreast.expect_rel _ _ _).same fun _ => ?_
      refine (statementList_abreast hs).bind fun body body' h => ?_
      exact (abreast.endConstruct_rel _ _ _ _).same fun _ =>
        .node fun place => .forLoop place control.nameText start stop step h
    exact .ite ((abreast.map some he _ _).same last) ((abreast.pure none _ _).same last)
  exact .ite ((abreast.accept_rel _ _ _).same fun _ => rest) rest

theorem whileStmt_abreast (levels : Nat) (hs : Deciding D D' s) :
    Deciding D D' (whileStmt (expression levels) s) := by
  refine Abreast.advance.same fun t => ?_
  refine (abreast.expression_rel (.refl levels) _ _).same fun condition => ?_
  refine (abreast.expect_rel _ _ _).same fun _ => ?_
  refine (statementList_abreast hs).bind fun body body' h => ?_
  exact (abreast.endConstruct_rel _ _ _ _).same fun _ =>
    .node fun place => .whileLoop place condition h

theorem repeatStmt_abreast (levels : Nat) (hs : Deciding D D' s) :
    Deciding D D' (repeatStmt (expression levels) s) := by
  refine Abreast.advance.same fun t => (statementList_abreast hs).bind fun body body' h => ?_
  refine (abreast.expect_rel _ _ _).same fun _ => ?_
  refine (abreast.expression_rel (.refl levels) _ _).same fun condition => ?_
  refine (abreast.accept_rel _ _ _).same fun _ => (abreast.endConstruct_rel _ _ _ _).same fun _ => ?_
  exact .node fun place => .repeatLoop place condition h

theorem regionStmt_abreast (hs : Deciding D D' s) : Deciding D D' (regionStmt s) := by
  refine Abreast.advance.same fun t => (abreast.restOfLine_rel _ _ _).same fun (title, lineEnd) => ?_
  refine (abreast.skipBefore_rel _ _ _).same fun _ => ?_
  refine (statementList_abreast hs).bind fun body body' h => ?_
  exact (abreast.endConstruct_rel _ _ _ _).same fun _ => .node fun place => .region place _ h

/-! ### One statement -/

theorem statementBody_abreast (levels : Nat) (hs : Deciding D D' s) :
    Deciding D D' (statementBody (expression levels) s) := by
  refine (abreast.lexeme_rel _ _).same fun l => ?_
  have single (t : Stmt) (h : t.NamesCallee) (flat : t.flatten = [t]) : t.Undecided := by
    unfold Stmt.Undecided
    rw [flat]
    exact List.forall_mem_singleton.2 h
  split
  · exact ifStmt_abreast levels hs
  · exact caseStmt_abreast levels hs
  · exact forStmt_abreast levels hs
  · exact whileStmt_abreast levels hs
  · exact repeatStmt_abreast levels hs
  · exact oneWord_abreast (fun _ _ => rfl) fun s => single (.exitLoop s) trivial rfl
  · exact oneWord_abreast (fun _ _ => rfl) fun s => single (.nextPass s) trivial rfl
  · exact leaveStmt_abreast levels
  · exact gotoStmt_abreast
  · exact regionStmt_abreast hs
  · exact plainStmt_abreast levels

theorem statement_abreast (levels : Nat) : Deciding D D' (statement levels) := by
  induction levels with
  | zero => exact .limit (fun _ c => ⟨_, c.enter, rfl⟩) _
  | succ levels ih => exact .nested (statementBody_abreast levels ih)

/-! ### Bodies -/

theorem checkSizes_abreast (size : Nat) {ss ss' : List Stmt} (same : ss.length = ss'.length) :
    Abreast [D] [D'] Eq (checkSizes size ss) (checkSizes size ss') := by
  induction ss generalizing size ss' with
  | nil =>
    obtain rfl := List.eq_nil_of_length_eq_zero same.symm
    exact .pure rfl
  | cons s ss ih =>
    cases ss' with
    | nil => cases same
    | cons s' ss' => exact (Abreast.checkSize _ _ _).same fun _ => ih _ (Nat.succ.inj same)

theorem recovers_abreast {ds ds' : List (List String)} : Abreast ds ds' Eq recovers recovers := by
  rintro s c _ ⟨names, n, rfl⟩
  exact .ok rfl ⟨names, n, rfl⟩

theorem bodyWith_abreast (hs : Deciding D D' s) (ends : List Keyword) :
    DecidingAll D D' (bodyWith s ends) := by
  refine (statementList_abreast hs).bind fun first first' h => Abreast.passes.same fun n => ?_
  rw [← h.length_eq]
  have strays : Abreast [D] [D'] Eq
      (lexeme >>= fun l => recovers >>= fun b => pure (b && isStray ends l))
      (lexeme >>= fun l => recovers >>= fun b => pure (b && isStray ends l)) :=
    (abreast.lexeme_rel _ _).same fun l => recovers_abreast.same fun b => .pure rfl
  refine Abreast.bind (R := Stmt.DifferAll D D') (.many strays (fun size => ?_) n _)
    fun others others' h' => .pure (h.append h')
  refine (abreast.unexpected_rel _ _ _).same fun e => (Abreast.report e).same fun _ => ?_
  refine Abreast.advance.same fun _ => (abreast.accept_rel _ _ _).same fun _ => ?_
  refine (statementList_abreast hs).bind fun stmts stmts' same => ?_
  exact (checkSizes_abreast _ same.length_eq).same fun _ => .pure same

theorem finishText_abreast {ds ds' : List (List String)} :
    Abreast ds ds' Eq finishText finishText := by
  have look : Abreast ds ds' Eq
      (recovers >>= fun b => atEnd >>= fun e =>
        if (b && !e) = true then unexpected "end of input" >>= report else expectEnd)
      (recovers >>= fun b => atEnd >>= fun e =>
        if (b && !e) = true then unexpected "end of input" >>= report else expectEnd) := by
    refine recovers_abreast.same fun b => (abreast.atEnd_rel _ _).same fun e => .ite ?_ ?_
    · exact (abreast.unexpected_rel _ _ _).same Abreast.report
    · exact abreast.expectEnd_rel _ _
  exact look

/-- The same text, with the one list of names declared or the other. -/
theorem allStatements_abreast (levels : Nat) :
    Abreast [] [] (Stmt.DifferAll D D') (allStatements levels D) (allStatements levels D') := by
  refine (Abreast.declaring D D' (bodyWith_abreast (statement_abreast levels) [])).bind
    fun ss ss' h => ?_
  exact finishText_abreast.same fun _ => .pure h

end

end Plc.Grammar

namespace Plc

open Grammar

/-- Two texts of statements are the same where invocations are taken for calls.  Both come from one text
in which every callee is a variable: a call stays an invocation if the name at the root of its callee is
declared, and becomes the call of a function otherwise. -/
def Stmt.SameButCalls (D D' : List String) (ts ts' : List Stmt) : Prop :=
  ts.map callsOnly = ts'.map callsOnly ∧
    ∃ us : List Stmt, (∀ u ∈ us, u.Undecided) ∧
      ts.map blurred = us.map (decided D) ∧ ts'.map blurred = us.map (decided D')

theorem Stmt.DifferAll.sameButCalls {D D' : List String} {ts ts' : List Stmt}
    (h : Stmt.DifferAll D D' ts ts') : Stmt.SameButCalls D D' ts ts' := by
  obtain ⟨us, undecided, made, made'⟩ := h
  refine ⟨?_, us, undecided, made, made'⟩
  have only {names : List String} {ts : List Stmt} (made : ts.map blurred = us.map (decided names)) :
      ts.map callsOnly = us.map callsOnly := by
    have calls := congrArg (List.map callsOnly) made
    rwa [List.map_map, List.map_map, show callsOnly ∘ blurred = callsOnly from funext callsOnly_blurred,
      show callsOnly ∘ decided names = callsOnly from funext (callsOnly_decided names)] at calls
  exact (only made).trans (only made').symm

namespace Reading

theorem outcomes_decided {ds ds' : List (List String)} {D D' : List String}
    {run run' : EStateM.Result Fault Cursor (List Stmt)}
    (h : EndsAbreast ds ds' (Stmt.DifferAll D D') run run') (settled : Settled (outcome run))
    (settled' : Settled (outcome run')) :
    (∃ f, outcome run = .error f ∧ outcome run' = .error f) ∨
      ∃ ts ts' errors, outcome run = .ok (ts, errors) ∧ outcome run' = .ok (ts', errors) ∧
        Stmt.SameButCalls D D' ts ts' := by
  cases h with
  | @ok ts ts' c c' h place =>
    obtain ⟨-, n, rfl⟩ := place
    exact .inr ⟨ts, ts', c.errors, rfl, rfl, h.sameButCalls⟩
  | error f place => exact .inl ⟨f, rfl, rfl⟩
  | left e c run' => exact absurd rfl (settled e)
  | right run e c' => exact absurd rfl (settled' e)

theorem run_decided (r : Reading) (D D' : List String) (recovers : Bool)
    (settled : Settled (run (allStatements r.limits.maxDepth D) r.source r.limits r.dialect recovers))
    (settled' : Settled (run (allStatements r.limits.maxDepth D') r.source r.limits r.dialect recovers)) :
    (∃ f, run (allStatements r.limits.maxDepth D) r.source r.limits r.dialect recovers = .error f ∧
      run (allStatements r.limits.maxDepth D') r.source r.limits r.dialect recovers = .error f) ∨
      ∃ ts ts' errors,
        run (allStatements r.limits.maxDepth D) r.source r.limits r.dialect recovers =
          .ok (ts, errors) ∧
        run (allStatements r.limits.maxDepth D') r.source r.limits r.dialect recovers =
          .ok (ts', errors) ∧ Stmt.SameButCalls D D' ts ts' := by
  unfold run at settled settled' ⊢
  cases cut : tokensWithin r.limits r.dialect r.source with
  | error f => exact .inl ⟨f, rfl, rfl⟩
  | ok tokens =>
    rw [cut] at settled settled'
    exact outcomes_decided (allStatements_abreast r.limits.maxDepth _ _ _ ⟨rfl, 0, rfl⟩) settled settled'

/-- Declared names change only how calls are classified.  Unless a bound ends one of the readings, the
strict reading ends with one error whatever is declared or with trees that are the same but for their
calls, and so does the recovering one, which also records the same errors. -/
theorem statements_sameButCalls (r : Reading) (D D' : List String) :
    (Settled (r.statements D) → Settled (r.statements D') →
      (∃ f, r.statements D = .error f ∧ r.statements D' = .error f) ∨
        ∃ ts ts', r.statements D = .ok ts ∧ r.statements D' = .ok ts' ∧
          Stmt.SameButCalls D D' ts ts') ∧
    (Settled (r.statementsRecovering D) → Settled (r.statementsRecovering D') →
      (∃ f, r.statementsRecovering D = .error f ∧ r.statementsRecovering D' = .error f) ∨
        ∃ ts ts' errors, r.statementsRecovering D = .ok (ts, errors) ∧
          r.statementsRecovering D' = .ok (ts', errors) ∧ Stmt.SameButCalls D D' ts ts') := by
  refine ⟨fun settled settled' => ?_, r.run_decided D D' true⟩
  have strict (names : List String) : r.statements names =
      (run (allStatements r.limits.maxDepth names) r.source r.limits r.dialect false).map (·.1) := rfl
  rw [strict] at settled settled'
  rw [strict, strict]
  obtain ⟨f, ends, ends'⟩ | ⟨ts, ts', errors, ends, ends', same⟩ :=
    r.run_decided D D' false (fun e ends => settled e (by rw [ends]; rfl))
      fun e ends => settled' e (by rw [ends]; rfl)
  · exact .inl ⟨f, by rw [ends]; rfl, by rw [ends']; rfl⟩
  · exact .inr ⟨ts, ts', by rw [ends]; rfl, by rw [ends']; rfl, same⟩

/-- A text with calls, one of them in a construct, and an error behind them. -/
def callsText : Reading :=
  { source := "IF a THEN t.go(x := 1); END_IF; u(a); f(2) b := ;".toList }

/-- What is recovered of the text does not depend on the declared names but for the calls. -/
theorem statements_sameButCalls_callsText :
    (Settled (callsText.statements ["t"]) ∧ Settled (callsText.statements ["u", "f"])) ∧
    (Settled (callsText.statementsRecovering ["t"]) ∧
      Settled (callsText.statementsRecovering ["u", "f"])) ∧
    (∃ f, callsText.statements ["t"] = .error f ∧ callsText.statements ["u", "f"] = .error f) ∧
    ∃ ts ts' errors, callsText.statementsRecovering ["t"] = .ok (ts, errors) ∧
      callsText.statementsRecovering ["u", "f"] = .ok (ts', errors) ∧
      Stmt.SameButCalls ["t"] ["u", "f"] ts ts' := by
  have settled : (Settled (callsText.statements ["t"]) ∧ Settled (callsText.statements ["u", "f"])) ∧
      Settled (callsText.statementsRecovering ["t"]) ∧
      Settled (callsText.statementsRecovering ["u", "f"]) := by decide +kernel
  have fails : (callsText.statements ["t"]).toOption.isNone = true ∧
      (callsText.statementsRecovering ["t"]).toOption.isSome = true := by decide +kernel
  obtain ⟨strict, lenient⟩ := callsText.statements_sameButCalls ["t"] ["u", "f"]
  refine ⟨settled.1, settled.2, ?_, ?_⟩
  · obtain alike | ⟨ts, _, read, -, -⟩ := strict settled.1.1 settled.1.2
    · exact alike
    · rw [read] at fails
      cases fails.1
  · obtain ⟨f, ends, -⟩ | alike := lenient settled.2.1 settled.2.2
    · rw [ends] at fails
      cases fails.2
    · exact alike

end Reading

end Plc

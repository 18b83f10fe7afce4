/-
The acts that the checker performs are those of the text.

Every rule of the checker is gone through once, one case for each kind of expression and statement:
what it does with names is what the acts of its node say, together with the acts of its parts.  The
checker and the walks over a tree meet the parts in different orders, so that the acts agree up to
their order.

* `typeOf_performs`, `typeOfVariable_performs` — expressions;
* `checkAll_performs` — statements.
-/
import Plc.Proofs.Check.Acts

namespace Plc

namespace Check

/-! ### Rules that look at no names -/

theorem combine_performs (op : BinaryOp) (span : Span) (l r : Ty) :
    Performs (combine op l r span) [] := by
  unfold combine
  split
  · exact .pure _
  · split
    · exact .pure _
    · split
      · exact .pure _
      · exact .skip (.report _ _ rfl) fun _ => .pure _

theorem typeOfLiteral_performs (l : Literal) : Performs (typeOfLiteral l) [] := by
  unfold typeOfLiteral
  split
  · exact .skip (.resolve _) fun _ => .pure _
  all_goals exact .pure _

theorem checkSignature_performs (g : Signature) (span : Span) (args : List (Arg × Ty)) :
    Performs (checkSignature g span args) [] := by
  unfold checkSignature
  split
  · exact .report _ _ rfl
  · refine .skip (.forIn (fun x u => ?_) _ _) fun _ => .pure _
    obtain ⟨⟨arg, found⟩, position⟩ := x
    dsimp only
    split
    · split
      · exact .pure _
      · exact .skip (.report _ _ rfl) fun _ => .pure _
    · exact .pure _

theorem expectInteger_performs (span : Span) (t : Ty) : Performs (expectInteger span t) [] := by
  unfold expectInteger
  split
  · exact .pure _
  · exact .report _ _ rfl

/-! ### Names -/

section

variable {α : Type} {c : Context} {s s' : State}

theorem run_lookup_bind (name : String) (f : Option Symbol → Check α) :
    run (lookup name >>= f) c s = run (f (s.scopes.lookup name)) c s := rfl

theorem run_context_bind (f : Context → Check α) : run (read >>= f) c s = run (f c) c s := rfl

theorem run_state_bind (f : State → Check α) : run (get >>= f) c s = run (f s) c s := rfl

theorem run_undefined (span : Span) (name : String) (style : NameStyle) :
    (run (undefined span name style) c s).2 = { s with
      found := s.found ++
        if style ≠ .quoted then [⟨.undefinedIdentifier name, span, .error, none⟩] else [] } := by
  unfold undefined
  by_cases quoted : style = .quoted
  · rw [if_pos quoted, if_neg (not_not_intro quoted), List.append_nil]
    rfl
  · rw [if_neg quoted, if_pos quoted]
    rfl

/-- An act that marks no symbol and is not found fault with. -/
theorem State.Follows.idle {a : Act} (h : s.Follows c [] s') (used : a.used c s.scopes = [])
    (assigned : a.assigned = []) (found : a.found s.scopes s.types = []) : s.Follows c [a] s' := by
  obtain ⟨scopes, specs, same⟩ := h
  refine ⟨?_, specs, ?_⟩
  · rw [List.flatMap_singleton, List.flatMap_singleton, used, assigned]
    exact scopes
  · rw [List.flatMap_singleton, found]
    exact same

/-- Acts that mark no symbol, after which what is found about their names has been reported. -/
theorem State.Follows.reported {acts : List Act} {more : List Diagnostic}
    (scopes : s.scopes.marked (acts.flatMap (Act.used c s.scopes)) (acts.flatMap Act.assigned) =
      s.scopes)
    (found : more.filter isAboutNames = acts.flatMap (Act.found s.scopes s.types)) :
    s.Follows c acts { s with found := s.found ++ more } := by
  refine ⟨scopes.symm, rfl, ?_⟩
  rw [← found, ← List.filter_append]

end

theorem typeOfName_performs (span : Span) (name : String) (style : NameStyle) :
    Performs (typeOfVariable (.named span name style)) [.read span name style] := by
  intro c s
  unfold typeOfVariable
  rw [run_lookup_bind]
  cases known : s.scopes.lookup name with
  | some x =>
    -- the name means a symbol, so that nothing is found
    show s.Follows c _ { s with scopes := s.scopes.markUsed name }
    exact ⟨Scopes.markUsed_eq _ _, rfl, by simp [Act.found, known]⟩
  | none =>
    -- the name means nothing, so that it is not marked
    have unmarked : s.scopes.marked [name] [] = s.scopes :=
      Scopes.marked_of_lookup_eq_none (by simpa using known) (by simp)
    dsimp only
    rw [run_state_bind]
    cases value : s.types.enumOf? name with
    | some type =>
      refine ⟨unmarked.symm, (Registry.resolve_settles type s.types).specs, ?_⟩
      show (s.found.filter _).Perm _
      simp [Act.found, value]
    | none =>
      dsimp only
      rw [run_undefined]
      refine .reported unmarked ?_
      by_cases quoted : style = .quoted <;> simp [Act.found, known, value, quoted, isAboutNames]

theorem typeOfCall_performs (span : Span) (name : String) (args : List (Arg × Ty)) :
    Performs (typeOfCall span name args) [.call name] := by
  intro c s
  unfold typeOfCall
  rw [run_context_bind]
  cases registered : c.functions.lookup (Text.upper name) with
  | some g =>
    -- a registered function hides whatever symbol has its name
    refine .idle ?_ (by simp [Act.used, registered]) rfl rfl
    exact (checkSignature_performs g span args).skip (fun _ => .pure _) c s
  | none =>
    dsimp only
    rw [run_lookup_bind]
    cases known : s.scopes.lookup name with
    | none => exact .idle (.refl c s) (by simp [Act.used, known]) rfl rfl
    | some x =>
      -- only functions are marked when they are called
      obtain ⟨_, kind, type, _, _, _, _⟩ := x
      cases kind with
      | function =>
        show s.Follows c _ { s with scopes := s.scopes.markUsed name }
        refine ⟨?_, rfl, by simp [Act.found]⟩
        simp [Act.used, Act.assigned, registered, known, Scopes.markUsed_eq]
      | _ => exact .idle (.refl c s) (by simp [Act.used, known]) rfl rfl

/-! ### Expressions -/

mutual

theorem typeOfVariable_performs : ∀ v : Variable,
    Performs (typeOfVariable v) (v.subexpressions.flatMap Expr.acts)
  -- What is done is told in the order of the tree, up to a permutation, as the base and the indices
  -- are.
  | .named span name style => by
    exact (typeOfName_performs span name style).perm (by simp [Variable.subexpressions, Expr.acts])
  | .address _ _ _ => by
    unfold typeOfVariable
    exact .pure _
  | .member _ base _ => by
    unfold typeOfVariable
    refine ((typeOfVariable_performs base).then_skip fun i => ?_).perm
      (by simp [Variable.subexpressions, Expr.acts])
    split
    · exact .pure _
    · exact .pure _
  | .element span base indices => by
    unfold typeOfVariable
    refine ((typeOfVariable_performs base).bind fun i =>
      (checkIndices_performs indices).then_skip fun _ => ?_).perm
        (by simp [Variable.subexpressions, Expr.acts])
    split
    · split
      · exact .skip (.report _ _ rfl) fun _ => .pure _
      · exact .pure _
    · exact .pure _
  | .deref _ base => by
    unfold typeOfVariable
    refine ((typeOfVariable_performs base).then_skip fun i => ?_).perm
      (by simp [Variable.subexpressions, Expr.acts])
    split
    · exact .pure _
    · exact .pure _

theorem typeOf_performs : ∀ e : Expr, Performs (typeOf e) e.allActs
  -- What depends on types only reports, and is left out of what is told.
  | .literal _ l => by
    unfold typeOf
    exact .skip (typeOfLiteral_performs l) fun _ => .pure _
  | .variable v => by
    unfold typeOf
    exact typeOfVariable_performs v
  | .unary span op x => by
    unfold typeOf
    refine ((typeOf_performs x).then_skip fun i => ?_).perm
      (by simp [Expr.allActs, Expr.subexpressions, Expr.acts])
    dsimp only
    split
    · exact .pure _
    · split
      · exact .pure _
      · exact .skip (.report _ _ rfl) fun _ => .pure _
  | .binary span op l r => by
    unfold typeOf
    refine ((typeOf_performs l).bind fun i => (typeOf_performs r).then_skip fun j => ?_).perm
      (by simp [Expr.allActs, Expr.subexpressions, Expr.acts])
    exact .skip (combine_performs _ _ _ _) fun _ => .pure _
  | .paren _ x => by
    unfold typeOf
    exact (typeOf_performs x).perm (by simp [Expr.allActs, Expr.subexpressions, Expr.acts])
  | .call span name args => by
    unfold typeOf
    refine ((typeOfArgs_performs args).bind fun ts =>
      (typeOfCall_performs span name ts).then_skip fun _ => .pure _).perm ?_
    -- the name is looked at after the arguments, and is met before them
    simp only [Expr.allActs, Expr.subexpressions, List.flatMap_cons, Expr.acts, List.cons_append]
    exact List.perm_append_singleton _ _
  | .repeated _ _ (some x) => by
    unfold typeOf
    exact ((typeOf_performs x).then_skip fun _ => .pure _).perm
      (by simp [Expr.allActs, Expr.subexpressions, Expr.acts])
  | .repeated _ _ none => by
    unfold typeOf
    exact .pure _
  | .arrayInit _ elements => by
    unfold typeOf
    exact ((typeOfAll_performs elements).then_skip fun _ => .pure _).perm
      (by simp [Expr.allActs, Expr.subexpressions, Expr.acts])
  | .structInit _ fields => by
    unfold typeOf
    exact ((typeOfArgs_performs fields).then_skip fun _ => .pure _).perm
      (by simp [Expr.allActs, Expr.subexpressions, Expr.acts])

/-- The targets of outputs are written between the arguments, and told before them. -/
theorem typeOfArgs_performs : ∀ args : List Arg, Performs (typeOfArgs args)
    (writes (Arg.outputs args) ++ (Arg.subexpressionsAll args).flatMap Expr.acts)
  | [] => by
    unfold typeOfArgs
    exact .pure _
  | .positional span x :: args => by
    unfold typeOfArgs
    refine ((typeOf_performs x).bind fun i =>
      (typeOfArgs_performs args).then_skip fun _ => .pure _).perm ?_
    rw [Arg.subexpressionsAll, Arg.subexpressions, List.flatMap_append]
    exact List.perm_append_comm_assoc _ _ _
  | .named span name x :: args => by
    unfold typeOfArgs
    refine ((typeOf_performs x).bind fun i =>
      (typeOfArgs_performs args).then_skip fun _ => .pure _).perm ?_
    rw [Arg.subexpressionsAll, Arg.subexpressions, List.flatMap_append]
    exact List.perm_append_comm_assoc _ _ _
  | .output _ _ v _ :: args => by
    unfold typeOfArgs
    refine ((typeOfVariable_performs v).bind fun _ => (Performs.markRootAssigned v).bind fun _ =>
      typeOfArgs_performs args).perm ?_
    -- The target of this output is the first of all.
    have outputs (a : Span) (n : String) (b : Bool) :
        writes (Arg.outputs (.output a n v b :: args)) =
          writes [v] ++ writes (Arg.outputs args) := by
      rw [← writes_append]
      rfl
    rw [Arg.subexpressionsAll, Arg.subexpressions, List.flatMap_append, outputs, List.append_assoc]
    exact (List.perm_append_comm_assoc _ _ _).trans
      ((List.perm_append_comm_assoc _ _ _).append_left _)
  | .inferred _ :: args => by
    unfold typeOfArgs
    exact typeOfArgs_performs args

theorem checkIndices_performs : ∀ xs : List Expr,
    Performs (checkIndices xs) ((Expr.subexpressionsAll xs).flatMap Expr.acts)
  | [] => by
    unfold checkIndices
    exact .pure _
  | x :: xs => by
    unfold checkIndices
    rw [Expr.subexpressionsAll, List.flatMap_append]
    refine (typeOf_performs x).bind fun i => ?_
    dsimp only
    split
    · exact checkIndices_performs xs
    · exact .skip (.report _ _ rfl) fun _ => checkIndices_performs xs

theorem typeOfAll_performs : ∀ xs : List Expr,
    Performs (typeOfAll xs) ((Expr.subexpressionsAll xs).flatMap Expr.acts)
  | [] => by
    unfold typeOfAll
    exact .pure _
  | x :: xs => by
    unfold typeOfAll
    rw [Expr.subexpressionsAll, List.flatMap_append]
    exact (typeOf_performs x).bind fun _ => typeOfAll_performs xs

end

/-! ### Statements -/

/-- What a variable does that is assigned to: where it has accesses, it is read as they need it. -/
theorem typeOfTarget_performs (v : Variable) : Performs (typeOfTarget v)
    (Occurrence.acts ⟨.variable v, true⟩ ++ v.subexpressions.tail.flatMap Expr.acts ++
      writes [v]) := by
  have accesses (h : Occurrence.acts ⟨.variable v, true⟩ = (Expr.variable v).acts) :
      Performs (do
        let info ← typeOfVariable v
        markRootAssigned v
        return info)
        (Occurrence.acts ⟨.variable v, true⟩ ++ v.subexpressions.tail.flatMap Expr.acts ++
          writes [v]) := by
    rw [h, ← List.flatMap_cons, ← v.subexpressions_eq_cons]
    exact (typeOfVariable_performs v).bind fun _ =>
      (Performs.markRootAssigned v).then_skip fun _ => .pure _
  cases v with
  | named span name style =>
    -- a name alone is not read, and is written only if it means something
    intro c s
    show s.Follows c [.target span name style, .write name] _
    unfold typeOfTarget
    rw [run_lookup_bind]
    cases known : s.scopes.lookup name with
    | some x =>
      show s.Follows c _ { s with scopes := s.scopes.markAssigned name }
      exact ⟨Scopes.markAssigned_eq _ _, rfl, by simp [Act.found, known]⟩
    | none =>
      have unmarked : s.scopes.marked [] [name] = s.scopes :=
        Scopes.marked_of_lookup_eq_none (by simp) (by simpa using known)
      dsimp only
      rw [run_undefined]
      refine .reported unmarked ?_
      by_cases quoted : style = .quoted <;> simp [Act.found, known, quoted, isAboutNames]
  | address span text a => exact accesses rfl
  | member span base m => exact accesses rfl
  | element span base indices => exact accesses rfl
  | deref span base => exact accesses rfl

theorem checkWritable_performs (v : Variable) : Performs (checkWritable v) [.store v] := by
  intro c s
  unfold checkWritable
  -- Nothing is said of a target without a name at its root, or of a name that stands for nothing.
  cases root : v.root? with
  | none => exact .idle (.refl c s) rfl rfl (by simp [Act.found, root])
  | some name =>
    dsimp only
    rw [run_lookup_bind]
    cases known : s.scopes.lookup name with
    | none => exact .idle (.refl c s) rfl rfl (by simp [Act.found, root, known])
    | some x =>
      have found : Act.found s.scopes s.types (.store v) =
          (refusal? x).toList.map (⟨·, v.span, .error, none⟩) := by
        simp only [Act.found, root, known, Option.bind_some]
      rw [refusal?] at found
      dsimp only
      -- The two refusals, in the order in which `refusal?` has them.
      by_cases constant : (x.kind = .constant || !x.isMutable) = true
      · rw [if_pos constant] at found ⊢
        exact .reported (Scopes.marked_nil _) (by simp [found, isAboutNames])
      · rw [if_neg constant] at found ⊢
        by_cases input : x.kind = .parameter
        · rw [if_pos input] at found ⊢
          exact .reported (Scopes.marked_nil _) (by simp [found, isAboutNames])
        · rw [if_neg input] at found ⊢
          exact .idle (.refl c s) rfl rfl found

theorem checkControl_performs (span : Span) (control : String) :
    Performs (checkControl span control) [.control span control] := by
  intro c s
  unfold checkControl
  rw [run_lookup_bind]
  cases known : s.scopes.lookup control with
  | none =>
    have unmarked : s.scopes.marked [control] [control] = s.scopes :=
      Scopes.marked_of_lookup_eq_none (by simpa using known) (by simpa using known)
    exact .reported unmarked (by simp [Act.found, known, isAboutNames])
  | some x =>
    -- the marks come first, and what is then found is about the type of the control
    have marks : s.Follows c [.control span control]
        { s with scopes := (s.scopes.markUsed control).markAssigned control } := by
      refine ⟨?_, rfl, by simp [Act.found, known]⟩
      show (s.scopes.markUsed control).markAssigned control = s.scopes.marked [control] [control]
      rw [Scopes.markUsed_eq, Scopes.markAssigned_eq, Scopes.marked_marked, List.append_nil,
        List.nil_append]
    exact marks.trans (expectInteger_performs span x.typeOrUnknown c _)

/-- The variable is typed, then the value, and the variable is written before it is looked at again.
The acts of the statement itself are told first. -/
theorem checkAssignment_performs (span : Span) (target : Variable) (op : AssignOp) (value : Expr) :
    Performs (checkAssignment span target op value)
      (Stmt.allActs (.assignment span target op value)) := by
  have store {m : Check Unit} (h : Performs m []) : Performs (m >>= fun _ => checkWritable target)
      [.store target] := .skip h fun _ => checkWritable_performs target
  unfold checkAssignment
  refine ((typeOfTarget_performs target).bind fun place => (typeOf_performs value).bind fun v =>
    (?_ : Performs _ [.store target])).perm ?_
  · have last (t : Ty) : Performs (if place.type.accepts t = true then checkWritable target
        else report .error value.span (.typeMismatch place.type.display t.display) >>= fun _ =>
          checkWritable target) [.store target] := by
      split
      · exact checkWritable_performs target
      · exact store (.report _ _ rfl)
    dsimp only
    split
    · exact .skip (.pure _) last
    · exact .skip (combine_performs _ _ _ _) last
  · have own : Stmt.allActs (.assignment span target op value) =
        writes [target] ++ ([Act.store target] ++
          ((Occurrence.acts ⟨.variable target, true⟩ ++
              target.subexpressions.tail.flatMap Expr.acts) ++ value.allActs)) := by
      rw [Stmt.allActs, Stmt.acts, Stmt.occurrences, List.flatMap_cons,
        Occurrence.flatMap_acts_read, List.flatMap_append, List.append_assoc, List.append_assoc]
      rfl
    -- first the write is brought to the front, and then the store after it
    rw [own, List.append_assoc]
    refine (List.perm_append_comm_assoc _ _ _).trans (List.Perm.append_left _ ?_)
    rw [← List.append_assoc]
    exact List.perm_append_comm

theorem checkComparison_performs (condition : Expr) : Performs (checkComparison condition) [] := by
  have truth (name : String) : Performs (isTruthValue name) [] := by
    unfold isTruthValue
    exact .skip (.lookup name) fun _ => .pure _
  unfold checkComparison
  split
  · split
    · refine .skip (truth _) fun a => ?_
      split
      · refine .skip (truth _) fun b => ?_
        split
        · exact .report _ _ rfl
        · exact .pure _
      · exact .pure _
    · exact .pure _
  · exact .pure _

theorem checkCondition_performs (condition : Expr) :
    Performs (checkCondition condition) condition.allActs := by
  unfold checkCondition
  refine (typeOf_performs condition).then_skip fun i => ?_
  dsimp only
  split
  · exact checkComparison_performs condition
  · exact .skip (.report _ _ rfl) fun _ => checkComparison_performs condition

theorem checkBound_performs (x : Expr) : Performs (checkBound x) x.allActs :=
  (typeOf_performs x).then_skip fun _ => expectInteger_performs _ _

theorem checkLabel_performs (selector : Ty) (x : Expr) :
    Performs (checkLabel selector x) x.allActs := by
  unfold checkLabel
  refine (typeOf_performs x).then_skip fun i => ?_
  dsimp only
  split
  · exact .pure _
  · exact .report _ _ rfl

theorem checkResult_performs (x : Expr) : Performs (checkResult x) x.allActs := by
  unfold checkResult
  refine (typeOf_performs x).then_skip fun i => .skip .context fun c => ?_
  split
  · split
    · exact .pure _
    · exact .report _ _ rfl
  · exact .pure _

/-- The expressions among the arguments of a call, each with its parts. -/
theorem flatMap_allActs_args (args : List Arg) :
    (args.filterMap Arg.expr?).flatMap Expr.allActs =
      (Arg.subexpressionsAll args).flatMap Expr.acts := by
  induction args with
  | nil => rfl
  | cons a args ih =>
    rw [Arg.subexpressionsAll, List.flatMap_append, ← ih]
    cases a <;> rfl

/-- A statement that has no bodies. -/
theorem Performs.alone {α : Type} {m : Check α} {s : Stmt} {acts : List Act} (h : Performs m acts)
    (single : s.flatten = [s]) (own : s.allActs = acts) :
    Performs m (s.flatten.flatMap Stmt.allActs) := by
  rw [single, List.flatMap_singleton, own]
  exact h

mutual

theorem checkStmt_performs : ∀ s : Stmt, Performs (checkStmt s) (s.flatten.flatMap Stmt.allActs)
  | .assignment span target op value => by
    unfold checkStmt
    exact (checkAssignment_performs span target op value).alone rfl rfl
  | .ifThen _ (.mk _ condition body) elsifs otherwise => by
    unfold checkStmt
    refine ((checkCondition_performs condition).bind fun _ => (checkAll_performs body).bind fun _ =>
      (checkElsifs_performs elsifs).bind fun _ =>
        (?_ : Performs _ ((Stmt.flattenAll (otherwise.getD [])).flatMap Stmt.allActs))).perm ?_
    · cases otherwise with
      | some ss => exact checkAll_performs ss
      | none => exact .pure _
    · -- the conditions of the other branches are met after the first body
      rw [Stmt.flatten_ifThen, List.flatMap_cons, Stmt.allActs_eq rfl]
      simp only [Stmt.acts, Stmt.roots, IfBranch.condition, List.nil_append, List.flatMap_cons,
        List.flatMap_append, List.append_assoc]
      exact (List.perm_append_comm_assoc _ _ _).append_left _
  | .caseOf _ selector branches otherwise => by
    unfold checkStmt
    refine ((typeOf_performs selector).bind fun i =>
      (checkBranches_performs i.type branches).bind fun _ =>
        (?_ : Performs _ ((Stmt.flattenAll (otherwise.getD [])).flatMap Stmt.allActs))).perm ?_
    · cases otherwise with
      | some ss => exact checkAll_performs ss
      | none => exact .pure _
    · rw [Stmt.flatten_caseOf, List.flatMap_cons, Stmt.allActs_eq rfl]
      simp only [Stmt.acts, Stmt.roots, List.nil_append, List.flatMap_cons, List.flatMap_append,
        List.append_assoc]
      exact .refl _
  | .forLoop span control start stop step body => by
    unfold checkStmt
    refine ((checkControl_performs span control).bind fun _ => (checkBound_performs start).bind
      fun _ => (checkBound_performs stop).bind fun _ =>
        (?_ : Performs _ (step.toList.flatMap Expr.allActs)).bind fun _ =>
          checkAll_performs body).perm ?_
    · cases step with
      | some x =>
        rw [Option.toList_some, List.flatMap_singleton]
        exact checkBound_performs x
      | none => exact .pure _
    · rw [Stmt.flatten, List.flatMap_cons, Stmt.allActs_eq rfl]
      simp only [Stmt.acts, Stmt.roots, List.flatMap_cons, List.append_assoc]
      exact .refl _
  | .whileLoop _ condition body => by
    unfold checkStmt
    rw [Stmt.flatten, List.flatMap_cons, Stmt.allActs_eq rfl, Stmt.roots, List.flatMap_singleton]
    exact (checkCondition_performs condition).bind fun _ => checkAll_performs body
  | .repeatLoop _ body condition => by
    unfold checkStmt
    rw [Stmt.flatten, List.flatMap_cons, Stmt.allActs_eq rfl, Stmt.roots, List.flatMap_singleton]
    -- the body comes before the condition
    exact ((checkAll_performs body).bind fun _ => checkCondition_performs condition).perm
      List.perm_append_comm
  | .leave _ value => by
    unfold checkStmt
    cases value with
    | some x =>
      exact (checkResult_performs x).alone rfl ((Stmt.allActs_eq rfl).trans (List.append_nil _))
    | none => exact .pure _
  | .call _ span name args => by
    unfold checkStmt
    have call := (typeOf_performs (.call span name args)).then_skip fun _ => .pure PUnit.unit
    exact call.alone rfl ((Stmt.allActs_eq rfl).trans (List.append_nil _))
  | .invoke _ callee args => by
    unfold checkStmt
    have call := (typeOfVariable_performs callee).bind fun _ =>
      (typeOfArgs_performs args).then_skip fun _ => .pure PUnit.unit
    -- the outputs are told before what is read, the instance included
    refine (call.perm (List.perm_append_comm_assoc _ _ _)).alone rfl ?_
    rw [Stmt.allActs_eq rfl, Stmt.roots, List.flatMap_cons, flatMap_allActs_args]
    rfl
  | .region _ _ body => by
    unfold checkStmt
    rw [Stmt.flatten, List.flatMap_cons, Stmt.allActs_eq rfl]
    exact checkAll_performs body
  | .exitLoop _ | .nextPass _ | .empty _ | .goto _ _ | .label _ _ => by
    unfold checkStmt
    exact .pure _

/-- The acts of a check of some statements are those of the statements, with the statements in their
bodies. -/
theorem checkAll_performs : ∀ ss : List Stmt,
    Performs (checkAll ss) ((Stmt.flattenAll ss).flatMap Stmt.allActs)
  | [] => by
    unfold checkAll
    exact .pure _
  | s :: ss => by
    unfold checkAll
    rw [Stmt.flattenAll_cons, List.flatMap_append]
    exact (checkStmt_performs s).bind fun _ => checkAll_performs ss

theorem checkElsifs_performs : ∀ bs : List IfBranch, Performs (checkElsifs bs)
    ((bs.map IfBranch.condition).flatMap Expr.allActs ++
      (IfBranch.flattenAll bs).flatMap Stmt.allActs)
  | [] => by
    unfold checkElsifs
    exact .pure _
  | .mk _ condition body :: bs => by
    unfold checkElsifs
    refine ((checkCondition_performs condition).bind fun _ => (checkAll_performs body).bind
      fun _ => checkElsifs_performs bs).perm ?_
    -- all conditions are told before all bodies
    rw [IfBranch.flattenAll, List.map_cons, IfBranch.condition, List.flatMap_cons,
      List.flatMap_append, List.append_assoc]
    exact (List.perm_append_comm_assoc _ _ _).append_left _

theorem checkBranches_performs (t : Ty) : ∀ bs : List CaseBranch, Performs (checkBranches t bs)
    ((bs.flatMap fun b => b.selectors.flatMap CaseSelector.roots).flatMap Expr.allActs ++
      (CaseBranch.flattenAll bs).flatMap Stmt.allActs)
  | [] => by
    unfold checkBranches
    exact .pure _
  | .mk _ labels body :: bs => by
    unfold checkBranches
    refine ((Performs.forM (checkLabel_performs t) _).bind fun _ => (checkAll_performs body).bind
      fun _ => checkBranches_performs t bs).perm ?_
    -- all labels are told before all bodies
    rw [CaseBranch.flattenAll, List.flatMap_cons, CaseBranch.selectors, List.flatMap_append,
      List.flatMap_append, List.append_assoc]
    exact (List.perm_append_comm_assoc _ _ _).append_left _

end

end Check

end Plc

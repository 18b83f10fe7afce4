/-
Forgetting types never adds findings.

Every rule of the checker that meets a type it does not know gives the unknown type and reports
nothing.  So when the types of some names are forgotten, the check of a body goes through the same
steps, each step knows the same or nothing, and what it reports it has reported before.

* `typeOf_alongside` — expressions, one case for each kind;
* `checkStmt_alongside` — statements;
* `findings_forget` — the findings about a body with types forgotten are among those without.
-/
import Plc.Proofs.Check.Blur

namespace Plc

namespace Check

/-- The type found second is the first, or is lost. -/
def Info.Blurs (i i' : Info) : Prop := i.type.Blurs i'.type

theorem Info.Blurs.refl (i : Info) : i.Blurs i := Ty.Blurs.refl _

theorem Info.ofSymbol_blurs {x x' : Symbol} (h : x.Blurs x') :
    (Info.ofSymbol x).Blurs (.ofSymbol x') := by
  unfold Info.ofSymbol
  rw [h.kind, h.isMutable]
  split
  · exact h.typeOrUnknown
  · split
    · exact h.typeOrUnknown
    · exact h.typeOrUnknown

/-- The same argument, whose type may be lost. -/
def TypedBlurs (a a' : Arg × Ty) : Prop := a'.1 = a.1 ∧ a.2.Blurs a'.2

/-! ### Operations -/

theorem undefined_alongside (span : Span) (name : String) (style : NameStyle) :
    Alongside Info.Blurs (undefined span name style) (undefined span name style) := by
  refine .of_fixed ?_ Info.Blurs.refl
  unfold undefined
  dsimp only
  split
  · exact ⟨_, _, .pure _⟩
  · exact ⟨_, _, (Reports.report _ _ _).bind (.pure _)⟩

theorem combine_reports (op : BinaryOp) (span : Span) (l r : Ty) :
    ∃ t more, Reports (combine op l r span) t more := by
  unfold combine
  split
  · exact ⟨_, _, .pure _⟩
  · split
    · exact ⟨_, _, .pure _⟩
    · split
      · exact ⟨_, _, .pure _⟩
      · exact ⟨_, _, (Reports.report _ _ _).bind (.pure _)⟩

theorem combine_unknown (op : BinaryOp) (span : Span) {l r : Ty}
    (h : (l.isUnknown || r.isUnknown) = true) : combine op l r span = pure .unknown := by
  unfold combine
  rw [if_pos h]

theorem combine_alongside (op : BinaryOp) (span : Span) {l l' r r' : Ty} (hl : l.Blurs l')
    (hr : r.Blurs r') : Alongside Ty.Blurs (combine op l r span) (combine op l' r' span) := by
  refine .of_types (f := fun l r => combine op l r span) (b := .unknown) Ty.Blurs.refl
    Ty.Blurs.unknown (combine_reports op span) (fun r => ?_) (fun l => ?_) hl hr
  · rw [combine_unknown op span rfl]
    exact .pure _
  · rw [combine_unknown op span (Bool.or_true _)]
    exact .pure _

theorem typeOfLiteral_alongside (l : Literal) :
    Alongside Ty.Blurs (typeOfLiteral l) (typeOfLiteral l) := by
  unfold typeOfLiteral
  split
  · refine (Alongside.resolve _).bind ?_
    rintro t _ rfl
    exact .pure (.refl _)
  all_goals exact .pure (.refl _)

/-! ### Calls -/

theorem checkSignature_alongside (g : Signature) (span : Span) {args args' : List (Arg × Ty)}
    (h : List.Forall₂ TypedBlurs args args') :
    Alongside (fun _ _ => True) (checkSignature g span args) (checkSignature g span args') := by
  unfold checkSignature
  rw [h.length_eq]
  split
  · exact .of_fixed ⟨_, _, .report _ _ _⟩ fun _ => trivial
  · refine .skip (Alongside.forIn (forall₂_zipIdx h 0) ?_) fun _ _ => .pure trivial
    rintro ⟨⟨arg, found⟩, position⟩ ⟨⟨_, found'⟩, _⟩ ⟨⟨rfl, ht⟩, rfl⟩
    dsimp only
    split
    · next name expected _ =>
      exact .complaint_then (.complaint expected.accepts
        (fun t => .wrongArgumentType name expected.display t.display)
        (Ty.accepts_unknown expected) ht) (.pure ⟨rfl, rfl⟩)
    · exact .pure ⟨rfl, rfl⟩

theorem typeOfCall_alongside (span : Span) (name : String) {args args' : List (Arg × Ty)}
    (h : List.Forall₂ TypedBlurs args args') :
    Alongside Ty.Blurs (typeOfCall span name args) (typeOfCall span name args') := by
  unfold typeOfCall
  dsimp only
  refine Alongside.context.bind ?_
  rintro c _ rfl
  split
  · exact .skip (checkSignature_alongside _ _ h) fun _ _ => .pure (.refl _)
  · refine (Alongside.lookup name).bind fun o o' ho => ?_
    cases ho with
    | none => exact .pure (.refl _)
    | @some x x' hx =>
      obtain ⟨_, kind, type, _, _, _, _⟩ := x
      obtain ⟨_, _, type', _, _, _, _⟩ := x'
      have known := hx.typeOrUnknown
      cases hx.same
      cases kind with
      | function => exact .skip (.markUsed name) fun _ _ => .pure known
      | _ => exact .pure (.refl _)

/-! ### Expressions -/

/-- What is done with one type, when it may be lost. -/
theorem onType_alongside (t t' : Ty) {f : Ty → Check Info} (i : Info) (ht : t.Blurs t')
    (hf : ∀ t, ∃ i more, Reports (f t) i more) (quiet : f .unknown = pure i) (lost : i.type = .unknown) :
    Alongside Info.Blurs (f t) (f t') :=
  .of_type Info.Blurs.refl (fun _ => .inr lost) hf (quiet ▸ .pure i) ht

mutual

theorem typeOfVariable_alongside : ∀ v : Variable,
    Alongside Info.Blurs (typeOfVariable v) (typeOfVariable v)
  -- A symbol is found in both runs or in none; only its type may be lost.
  | .named span name style => by
    unfold typeOfVariable
    refine (Alongside.lookup name).bind fun o o' ho => ?_
    cases ho with
    | some hx => exact .skip (.markUsed name) fun _ _ => .pure (Info.ofSymbol_blurs hx)
    | none =>
      refine Alongside.get.bind fun s s' hs => ?_
      rw [hs.types]
      split
      · refine (Alongside.resolve _).bind ?_
        rintro t _ rfl
        exact .pure (.refl _)
      · exact undefined_alongside span name style
  | .address _ _ a => by
    unfold typeOfVariable
    exact .pure (.refl _)
  -- Whatever depends on the type of the base, the unknown type gives the unknown one and no
  -- finding.
  | .member _ base name => by
    unfold typeOfVariable
    refine (typeOfVariable_alongside base).bind fun ⟨t, _, _⟩ ⟨t', _, _⟩ ht => ?_
    dsimp only
    apply onType_alongside t t' (.place .unknown) ht ?_ ?_ rfl
    · intro t
      split
      · exact ⟨_, _, .pure _⟩
      · exact ⟨_, _, .pure _⟩
    · rfl
  | .element span base indices => by
    unfold typeOfVariable
    refine (typeOfVariable_alongside base).bind fun ⟨t, _, _⟩ ⟨t', _, _⟩ ht => ?_
    refine .skip (checkIndices_alongside indices) fun _ _ => ?_
    dsimp only
    apply onType_alongside t t' (.place .unknown) ht ?_ ?_ rfl
    · intro t
      split
      · split
        · exact ⟨_, _, (Reports.report _ _ _).bind (.pure _)⟩
        · exact ⟨_, _, .pure _⟩
      · exact ⟨_, _, .pure _⟩
    · rfl
  | .deref _ base => by
    unfold typeOfVariable
    refine (typeOfVariable_alongside base).bind fun ⟨t, _, _⟩ ⟨t', _, _⟩ ht => ?_
    dsimp only
    apply onType_alongside t t' (.place .unknown) ht ?_ ?_ rfl
    · intro t
      split
      · exact ⟨_, _, .pure _⟩
      · exact ⟨_, _, .pure _⟩
    · rfl

theorem typeOf_alongside : ∀ e : Expr, Alongside Info.Blurs (typeOf e) (typeOf e)
  -- The recursion is that of the typing. Where a type decides whether something is found,
  -- `onType_alongside` says that the unknown one finds nothing.
  | .literal _ l => by
    unfold typeOf
    exact (typeOfLiteral_alongside l).bind fun t t' ht => .pure ht
  | .variable v => by
    unfold typeOf
    exact typeOfVariable_alongside v
  | .unary span op x => by
    unfold typeOf
    refine (typeOf_alongside x).bind fun ⟨t, _, _⟩ ⟨t', _, _⟩ ht => ?_
    dsimp only
    apply onType_alongside t t' (.value .unknown) ht ?_ ?_ rfl
    · intro t
      split
      · exact ⟨_, _, .pure _⟩
      · split
        · exact ⟨_, _, .pure _⟩
        · exact ⟨_, _, (Reports.report _ _ _).bind (.pure _)⟩
    · rfl
  | .binary span op l r => by
    unfold typeOf
    refine (typeOf_alongside l).bind fun i i' hi => (typeOf_alongside r).bind fun j j' hj => ?_
    exact (combine_alongside op span hi hj).bind fun t t' ht => .pure ht
  | .paren _ x => by
    unfold typeOf
    exact typeOf_alongside x
  | .call span name args => by
    unfold typeOf
    refine (typeOfArgs_alongside args).bind fun ts ts' hts => ?_
    exact (typeOfCall_alongside span name hts).bind fun t t' ht => .pure ht
  | .repeated _ _ (some x) => by
    unfold typeOf
    exact .skip (typeOf_alongside x) fun _ _ => .pure (.refl _)
  | .repeated _ _ none => by
    unfold typeOf
    exact .pure (.refl _)
  | .arrayInit _ elements => by
    unfold typeOf
    exact .skip (typeOfAll_alongside elements) fun _ _ => .pure (.refl _)
  | .structInit _ fields => by
    unfold typeOf
    exact .skip (typeOfArgs_alongside fields) fun _ _ => .pure (.refl _)

theorem typeOfArgs_alongside : ∀ args : List Arg,
    Alongside (List.Forall₂ TypedBlurs) (typeOfArgs args) (typeOfArgs args)
  | [] => by
    unfold typeOfArgs
    exact .pure .nil
  | .positional span x :: args => by
    unfold typeOfArgs
    refine (typeOf_alongside x).bind fun i i' hi => ?_
    exact (typeOfArgs_alongside args).bind fun ts ts' hts => .pure (.cons ⟨rfl, hi⟩ hts)
  | .named span name x :: args => by
    unfold typeOfArgs
    refine (typeOf_alongside x).bind fun i i' hi => ?_
    exact (typeOfArgs_alongside args).bind fun ts ts' hts => .pure (.cons ⟨rfl, hi⟩ hts)
  | .output _ _ v _ :: args => by
    unfold typeOfArgs
    refine .skip (typeOfVariable_alongside v) fun _ _ => ?_
    exact .skip (.markRootAssigned v) fun _ _ => typeOfArgs_alongside args
  | .inferred _ :: args => by
    unfold typeOfArgs
    exact typeOfArgs_alongside args

theorem checkIndices_alongside : ∀ xs : List Expr,
    Alongside (fun _ _ => True) (checkIndices xs) (checkIndices xs)
  | [] => by
    unfold checkIndices
    exact .pure trivial
  | x :: xs => by
    unfold checkIndices
    refine (typeOf_alongside x).bind fun i i' hi => ?_
    exact .complaint_then (.complaint (fun t => t.isInteger || t.isUnknown)
      (fun _ => .nonIntegerIndex) rfl hi) (checkIndices_alongside xs)

theorem typeOfAll_alongside : ∀ xs : List Expr,
    Alongside (fun _ _ => True) (typeOfAll xs) (typeOfAll xs)
  | [] => by
    unfold typeOfAll
    exact .pure trivial
  | x :: xs => by
    unfold typeOfAll
    exact .skip (typeOf_alongside x) fun _ _ => typeOfAll_alongside xs

end

/-! ### Statements -/

theorem typeOfTarget_alongside (v : Variable) :
    Alongside Info.Blurs (typeOfTarget v) (typeOfTarget v) := by
  unfold typeOfTarget
  split
  · refine (Alongside.lookup _).bind fun o o' ho => ?_
    cases ho with
    | none => exact undefined_alongside _ _ _
    | some hx => exact .skip (.markAssigned _) fun _ _ => .pure (Info.ofSymbol_blurs hx)
  · refine (typeOfVariable_alongside v).bind fun i i' hi => ?_
    exact .skip (.markRootAssigned v) fun _ _ => .pure hi

theorem checkWritable_alongside (v : Variable) :
    Alongside (fun _ _ => True) (checkWritable v) (checkWritable v) := by
  unfold checkWritable
  split
  · refine (Alongside.lookup _).bind fun o o' ho => ?_
    cases ho with
    | none => exact .pure trivial
    | some hx =>
      dsimp only
      rw [hx.kind, hx.isMutable, hx.name]
      refine .of_fixed (R := fun _ _ => True) ?_ fun _ => trivial
      split
      · exact ⟨_, _, .report _ _ _⟩
      · split
        · exact ⟨_, _, .report _ _ _⟩
        · exact ⟨_, _, .pure _⟩
  · exact .pure trivial

/-- An operation that an assignment makes fits what it gives, or gives the unknown type. -/
theorem checkAssignment_alongside (span : Span) (target : Variable) (op : AssignOp) (value : Expr) :
    Alongside (fun _ _ => True) (checkAssignment span target op value)
      (checkAssignment span target op value) := by
  unfold checkAssignment
  refine (typeOfTarget_alongside target).bind fun i i' hi => ?_
  refine (typeOf_alongside value).bind fun j j' hj => ?_
  -- The type that is stored is that of the value or of an operation with it; what is found about it
  -- goes when one of the two types is lost.
  have store {t t' : Ty} (ht : t.Blurs t') : Alongside (fun _ _ => True)
      (if i.type.accepts t then checkWritable target
        else report .error value.span (.typeMismatch i.type.display t.display) >>= fun _ =>
          checkWritable target)
      (if i'.type.accepts t' then checkWritable target
        else report .error value.span (.typeMismatch i'.type.display t'.display) >>= fun _ =>
          checkWritable target) :=
    .complaint_then (k := fun _ => checkWritable target)
      (.complaint₂ Ty.accepts (fun t u => .typeMismatch t.display u.display)
        Ty.unknown_accepts Ty.accepts_unknown hi ht) (checkWritable_alongside target)
  dsimp only
  split
  · exact .bind (.pure hj) fun t t' ht => store ht
  · exact (combine_alongside _ span hi hj).bind fun t t' ht => store ht

theorem isTruthValue_alongside (name : String) :
    Alongside (fun a b => b = true → a = true) (isTruthValue name) (isTruthValue name) := by
  unfold isTruthValue
  refine (Alongside.lookup name).bind fun o o' ho => .pure fun yes => ?_
  cases ho with
  | none => exact yes
  | @some x x' hx =>
    -- The unknown type is no truth value, so a name that is one with the type lost was one before.
    rcases hx.type with same | lost
    · rwa [Option.any_some, ← same]
    · cases known : x'.type with
      | none => simp [known] at yes
      | some t =>
        obtain rfl : t = .unknown := by simpa [Symbol.typeOrUnknown, known] using lost
        simp [known, Ty.isBool, Ty.simple?] at yes

theorem checkComparison_alongside (condition : Expr) :
    Alongside (fun _ _ => True) (checkComparison condition) (checkComparison condition) := by
  unfold checkComparison
  split
  · split
    · next span _ _ _ a b _ =>
      -- looking up the second name changes nothing, so that it may be done in any case
      have both : (do if (← isTruthValue a) then
            if (← isTruthValue b) then report .hint span .possibleAssignment) =
          (do
            let x ← isTruthValue a
            let y ← isTruthValue b
            unless !(x && y) do report .hint span .possibleAssignment) := by
        refine bind_congr fun x => ?_
        cases x with
        | false => rfl
        | true =>
          refine bind_congr fun y => ?_
          cases y <;> rfl
      rw [both]
      refine (isTruthValue_alongside a).bind fun x x' hx => ?_
      refine (isTruthValue_alongside b).bind fun y y' hy => ?_
      refine .complaint_of_imp _ fun silent => ?_
      rw [Bool.not_eq_true', ← Bool.not_eq_true, Bool.and_eq_true] at silent ⊢
      exact fun ⟨first, second⟩ => silent ⟨hx first, hy second⟩
    · exact .pure trivial
  · exact .pure trivial

theorem checkCondition_alongside (condition : Expr) :
    Alongside (fun _ _ => True) (checkCondition condition) (checkCondition condition) := by
  unfold checkCondition
  refine (typeOf_alongside condition).bind fun i i' hi => ?_
  exact .complaint_then (.complaint (fun t => t.isBool || t.isUnknown)
    (fun t => .typeMismatch "BOOL" t.display) rfl hi) (checkComparison_alongside condition)

theorem expectInteger_alongside (span : Span) {t t' : Ty} (ht : t.Blurs t') :
    Alongside (fun _ _ => True) (expectInteger span t) (expectInteger span t') :=
  .complaint (fun t => t.isUnknown || t.isInteger) (fun t => .typeMismatch "integer" t.display) rfl ht

theorem checkControl_alongside (span : Span) (control : String) :
    Alongside (fun _ _ => True) (checkControl span control) (checkControl span control) := by
  unfold checkControl
  refine (Alongside.lookup control).bind fun o o' ho => ?_
  cases ho with
  | none => exact .of_fixed ⟨_, _, .report _ _ _⟩ fun _ => trivial
  | some hx =>
    refine .skip (.markUsed control) fun _ _ => .skip (.markAssigned control) fun _ _ => ?_
    exact expectInteger_alongside span hx.typeOrUnknown

theorem checkBound_alongside (x : Expr) :
    Alongside (fun _ _ => True) (checkBound x) (checkBound x) :=
  (typeOf_alongside x).bind fun _ _ hi => expectInteger_alongside x.span hi

theorem checkLabel_alongside {t t' : Ty} (ht : t.Blurs t') (x : Expr) :
    Alongside (fun _ _ => True) (checkLabel t x) (checkLabel t' x) := by
  unfold checkLabel
  refine (typeOf_alongside x).bind fun i i' hi => ?_
  -- Either type being unknown, nothing is found.
  refine .complaint₂ (fun t u => t.isUnknown || u.isUnknown || Ty.comparable t u)
    (fun t u => .typeMismatch t.display u.display) (fun u => rfl) (fun t => ?_) ht hi
  show (t.isUnknown || true || _) = true
  rw [Bool.or_true, Bool.true_or]

theorem checkResult_alongside (x : Expr) :
    Alongside (fun _ _ => True) (checkResult x) (checkResult x) := by
  unfold checkResult
  refine (typeOf_alongside x).bind fun i i' hi => Alongside.context.bind ?_
  rintro c _ rfl
  split
  · next expected _ =>
    exact .complaint expected.accepts
      (fun t => .typeMismatch expected.display t.display) (Ty.accepts_unknown expected) hi
  · exact .pure trivial

mutual

theorem checkStmt_alongside : ∀ s : Stmt,
    Alongside (fun _ _ => True) (checkStmt s) (checkStmt s)
  -- The cases follow the checking; each part is done alongside itself, and only the selector of a
  -- `CASE` has a type that later parts use.
  | .assignment span target op value => by
    unfold checkStmt
    exact checkAssignment_alongside span target op value
  | .ifThen _ (.mk _ condition body) elsifs otherwise => by
    unfold checkStmt
    refine .skip (checkCondition_alongside condition) fun _ _ => ?_
    refine .skip (checkAll_alongside body) fun _ _ => ?_
    refine .skip (checkElsifs_alongside elsifs) fun _ _ => ?_
    cases otherwise with
    | some ss => exact checkAll_alongside ss
    | none => exact .pure trivial
  | .caseOf _ selector branches otherwise => by
    unfold checkStmt
    refine (typeOf_alongside selector).bind fun i i' hi => ?_
    refine .skip (checkBranches_alongside hi branches) fun _ _ => ?_
    cases otherwise with
    | some ss => exact checkAll_alongside ss
    | none => exact .pure trivial
  | .forLoop span control start stop step body => by
    unfold checkStmt
    refine .skip (checkControl_alongside span control) fun _ _ => ?_
    refine .skip (checkBound_alongside start) fun _ _ => ?_
    refine .skip (checkBound_alongside stop) fun _ _ => ?_
    cases step with
    | some x => exact .skip (checkBound_alongside x) fun _ _ => checkAll_alongside body
    | none => exact checkAll_alongside body
  | .whileLoop _ condition body => by
    unfold checkStmt
    exact .skip (checkCondition_alongside condition) fun _ _ => checkAll_alongside body
  | .repeatLoop _ body condition => by
    unfold checkStmt
    exact .skip (checkAll_alongside body) fun _ _ => checkCondition_alongside condition
  | .leave _ value => by
    unfold checkStmt
    cases value with
    | some x => exact checkResult_alongside x
    | none => exact .pure trivial
  | .call _ span name args => by
    unfold checkStmt
    exact .skip (typeOf_alongside (.call span name args)) fun _ _ => .pure trivial
  | .invoke _ callee args => by
    unfold checkStmt
    refine .skip (typeOfVariable_alongside callee) fun _ _ => ?_
    exact .skip (typeOfArgs_alongside args) fun _ _ => .pure trivial
  | .region _ _ body => by
    unfold checkStmt
    exact checkAll_alongside body
  | .exitLoop _ | .nextPass _ | .empty _ | .goto _ _ | .label _ _ => by
    unfold checkStmt
    exact .pure trivial

theorem checkAll_alongside : ∀ ss : List Stmt,
    Alongside (fun _ _ => True) (checkAll ss) (checkAll ss)
  | [] => by
    unfold checkAll
    exact .pure trivial
  | s :: ss => by
    unfold checkAll
    exact .skip (checkStmt_alongside s) fun _ _ => checkAll_alongside ss

theorem checkElsifs_alongside : ∀ bs : List IfBranch,
    Alongside (fun _ _ => True) (checkElsifs bs) (checkElsifs bs)
  | [] => by
    unfold checkElsifs
    exact .pure trivial
  | .mk _ condition body :: bs => by
    unfold checkElsifs
    refine .skip (checkCondition_alongside condition) fun _ _ => ?_
    exact .skip (checkAll_alongside body) fun _ _ => checkElsifs_alongside bs

theorem checkBranches_alongside {t t' : Ty} (ht : t.Blurs t') : ∀ bs : List CaseBranch,
    Alongside (fun _ _ => True) (checkBranches t bs) (checkBranches t' bs)
  | [] => by
    unfold checkBranches
    exact .pure trivial
  | .mk _ labels body :: bs => by
    unfold checkBranches
    have each : Alongside (fun _ _ => True) ((labels.flatMap CaseSelector.roots).forM (checkLabel t))
        ((labels.flatMap CaseSelector.roots).forM (checkLabel t')) :=
      .forM (R := Eq) (List.forall₂_refl _) fun x _ same => same ▸ checkLabel_alongside ht x
    refine .skip each fun _ _ => ?_
    exact .skip (checkAll_alongside body) fun _ _ => checkBranches_alongside ht bs

end

/-! ### Bodies -/

/-- What is found in the statements of a body, from nothing found. -/
def findings (c : Context) (types : Registry) (scopes : Scopes) (ss : List Stmt) : List Diagnostic :=
  (run (checkAll ss) c { scopes, types }).2.found

/-- Forgetting types never adds findings: whatever functions are registered, whatever a body returns
and whatever types are declared, the findings about a list of statements under a table in which the
types of some symbols are lost are, in the same order, among those under the full table. -/
theorem findings_forget (c : Context) (types : Registry) {scopes scopes' : Scopes}
    (h : scopes.Blurs scopes') (ss : List Stmt) :
    (findings c types scopes' ss).Sublist (findings c types scopes ss) :=
  have start : State.Blurs { scopes, types } { scopes := scopes', types } :=
    ⟨h, rfl, List.Sublist.refl _⟩
  (checkAll_alongside ss c _ _ start).2.found

/-- The tables of a body with an array, a text and a truth value, the first two perhaps of types
that are given. -/
def bodyScopes (array text : Option Ty) : Scopes where
  list := [{ name := "global" }, {
    name := "P"
    parent := some 0
    symbols := [{ name := "a", type := array }, { name := "s", type := text },
      { name := "b", type := some (.simple .bool) }] }]
  current := 1

/-- A name of a body. -/
def bodyName (name : String) : Variable := .named Span.zero name .plain

/-- `a[s] := b + b; IF s THEN END_IF;` -/
def bodyStmts : List Stmt := [
  .assignment Span.zero (.element Span.zero (bodyName "a") [.variable (bodyName "s")]) .assign
    (.binary Span.zero .add (.variable (bodyName "b")) (.variable (bodyName "b"))),
  .ifThen Span.zero (.mk Span.zero (.variable (bodyName "s")) []) [] none]

/-- The index, the number of dimensions and the condition are no longer found fault with; the sum of
truth values still is. -/
theorem findings_forget_index :
    (bodyScopes (some (.array 2 (.simple .int))) (some (.string false none))).Blurs
        (bodyScopes (some .unknown) none) ∧
      (findings {} {} (bodyScopes (some .unknown) none) bodyStmts).map Diagnostic.finding =
        [.incompatibleTypes "BOOL" "BOOL" "+"] ∧
      (findings {} {} (bodyScopes (some (.array 2 (.simple .int))) (some (.string false none)))
        bodyStmts).length = 4 ∧
      (findings {} {} (bodyScopes (some .unknown) none) bodyStmts).Sublist
        (findings {} {} (bodyScopes (some (.array 2 (.simple .int))) (some (.string false none)))
          bodyStmts) := by
  have lost : (bodyScopes (some (.array 2 (.simple .int))) (some (.string false none))).Blurs
      (bodyScopes (some .unknown) none) :=
    ⟨rfl, .cons ⟨rfl, rfl, .nil⟩ (.cons ⟨rfl, rfl, .cons ⟨rfl, .inr rfl⟩
      (.cons ⟨rfl, .inr rfl⟩ (.cons ⟨rfl, .inl rfl⟩ .nil))⟩ .nil)⟩
  exact ⟨lost, rfl, rfl, findings_forget {} {} lost bodyStmts⟩

end Check

end Plc

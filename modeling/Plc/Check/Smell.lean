/-
Smells: what is probably not meant, or hard to read.

* `Smell.ofExpr` — bare numbers in an expression;
* `Smell.ofList` — the smells of a statement list at a depth of nesting;
* `Smell.Detector.analyze` — the smells of a whole body, which may also be too long, found by a
  detector that counts the branches and loops that it stands in;
* `Smell.Detector.run_checkList` — the detector finds the smells at its depth, and leaves what it has
  entered.
-/
import Plc.Diagnostic
import Plc.Flow.Complexity
import Plc.Printer
import Plc.Tree.Walk
import Plc.Tree.Decl

namespace Plc

/-- What counts as a smell. -/
structure SmellConfig where
  maxNesting : Int := 4
  maxStatements : Int := 50
  maxOperators : Int := 4
  magicNumbers : Bool := true
  /-- Numbers that need no name. -/
  plainNumbers : List Int := [-1, 0, 1, 2, 10, 100]
  missingElse : Bool := true
  duplicates : Bool := true

namespace Smell

/-! ### Expressions -/

/-- A bare number that should have a name; numbers with a type in front are never bare. -/
def ofNumber (c : SmellConfig) (span : Span) (typeName : Option String) (n : Int) :
    List Diagnostic :=
  if typeName.isSome || c.plainNumbers.contains n then []
  else [⟨.magicNumber (toString n), span, .hint, none⟩]

mutual

/-- The bare numbers in the indices of a variable. -/
def ofVariable (c : SmellConfig) : Variable → List Diagnostic
  | .named _ _ _ | .address _ _ _ => []
  | .member _ base _ | .deref _ base => ofVariable c base
  | .element _ base indices => ofVariable c base ++ ofExprs c indices

/-- The bare numbers in an expression; a sign belongs to its number. -/
def ofExpr (c : SmellConfig) : Expr → List Diagnostic
  | .literal span l =>
    match l.value with
    | .integer n => ofNumber c span l.typeName n
    | _ => []
  | .variable v => ofVariable c v
  | .unary span op x =>
    match op, x with
    | .neg, .literal s l =>
      match l.value with
      | .integer n => ofNumber c span l.typeName (-n)
      | _ => ofExpr c (.literal s l)
    | _, x => ofExpr c x
  | .binary _ _ l r => ofExpr c l ++ ofExpr c r
  | .paren _ x => ofExpr c x
  | .call _ _ args => ofArgs c args
  | .repeated _ _ _ | .arrayInit _ _ | .structInit _ _ => []

/-- The bare numbers in some expressions. -/
def ofExprs (c : SmellConfig) : List Expr → List Diagnostic
  | [] => []
  | x :: xs => ofExpr c x ++ ofExprs c xs

/-- The bare numbers in some arguments. -/
def ofArgs (c : SmellConfig) : List Arg → List Diagnostic
  | [] => []
  | .positional _ x :: as | .named _ _ x :: as => ofExpr c x ++ ofArgs c as
  | .output _ _ v _ :: as => ofVariable c v ++ ofArgs c as
  | .inferred _ :: as => ofArgs c as

end

/-- The bare numbers in an expression, if they are looked for. -/
def ofValue (c : SmellConfig) (e : Expr) : List Diagnostic :=
  if c.magicNumbers then ofExpr c e else []

/-- The bare numbers in what a call statement is given. -/
def ofInputs (c : SmellConfig) (args : List Arg) : List Diagnostic :=
  args.flatMap fun
    | .positional _ x | .named _ _ x => ofValue c x
    | .output _ _ _ _ | .inferred _ => []

/-- The truth value that a condition is written as. -/
def constant? : Expr → Option Bool
  | .literal _ l =>
    match l.value with
    | .bool b => some b
    | _ => none
  | .paren _ x => constant? x
  | _ => none

/-- The smells of a condition: too many operators, always the same, bare numbers. -/
def ofCondition (c : SmellConfig) (e : Expr) : List Diagnostic :=
  let n : Int := Flow.logicalOperators e
  let bound := c.maxOperators
  (if n > bound then [⟨.complexCondition n bound, e.span, .graded n bound, none⟩] else []) ++
    (match constant? e with
      | some b => [⟨.redundantCondition b, e.span, .warning, none⟩]
      | none => []) ++
    ofValue c e

/-- The smells of the conditions of one `IF` statement, of which `seen` have been tested
before. -/
def ofConditions (c : SmellConfig) (seen : List String) : List Expr → List Diagnostic
  | [] => []
  | e :: es =>
    let text := e.text
    ofCondition c e ++
      (if c.duplicates && seen.contains text then
        [⟨.duplicateCode ("condition '" ++ text ++ "' already tested by an earlier branch"), e.span,
          .warning, none⟩]
      else []) ++
      ofConditions c (text :: seen) es

/-! ### Statements -/

/-- A construct at a depth of nesting that is too deep. -/
def ofDepth (c : SmellConfig) (depth : Nat) (span : Span) : List Diagnostic :=
  let n : Int := depth
  if n > c.maxNesting then
    [⟨.deepNesting n c.maxNesting, span, .graded n c.maxNesting, none⟩]
  else []

/-- A block without statements. -/
def ofEmpty (severity : Severity) (block : String) (span : Span) (body : List Stmt) :
    List Diagnostic :=
  if body.isEmpty then [⟨.emptyBlock block, span, severity, none⟩] else []

/-- What has been seen of a list before one of its statements. -/
structure Before where
  /-- The statement cannot be reached. -/
  dead : Bool := false
  /-- The text of the statement before, empty ones aside. -/
  previous : Option String := none

namespace Before

/-- What has been seen when control comes to a statement: a label may be jumped to. -/
def entering (b : Before) : Stmt → Before
  | .label _ _ => { b with dead := false }
  | _ => b

/-- What has been seen after a statement. -/
def leaving (b : Before) (c : SmellConfig) (s : Stmt) : Before :=
  let dead := match s with
    | .leave _ _ | .exitLoop _ => true
    | _ => b.dead
  let previous := match s with
    | .empty _ => b.previous
    | s => if c.duplicates then some (Stmt.textAll [s]) else b.previous
  { dead, previous }

/-- What is wrong with a statement where it stands: it cannot be reached, or it was there just
before. -/
def smells (b : Before) (c : SmellConfig) (s : Stmt) : List Diagnostic :=
  let repeated := match s with
    | .empty _ => false
    | s => c.duplicates && b.previous == some (Stmt.textAll [s])
  (if b.dead then [⟨.deadCode "code after RETURN or EXIT", s.span, .warning, none⟩] else []) ++
    (if repeated then
      [⟨.duplicateCode "statement repeats the one before it", s.span, .warning, none⟩]
    else [])

end Before

mutual

/-- The smells of a statement that `depth` branches and loops stand around. -/
def ofStmt (c : SmellConfig) (depth : Nat) : Stmt → List Diagnostic
  | .assignment _ _ _ value => ofValue c value
  | .ifThen span (.mk _ condition body) elsifs otherwise =>
    ofConditions c [] (condition :: elsifs.map IfBranch.condition) ++
      ofEmpty .warning "IF" span body ++ ofDepth c (depth + 1) span ++
      ofList c (depth + 1) {} body ++ ofElsifs c (depth + 1) elsifs ++
      match otherwise with
      | some ss => ofEmpty .hint "ELSE" span ss ++ ofList c (depth + 1) {} ss
      | none => []
  | .caseOf span _ branches otherwise =>
    ofDepth c (depth + 1) span ++ ofBranches c (depth + 1) branches ++
      match otherwise with
      | some ss => ofList c (depth + 1) {} ss
      | none => if c.missingElse then [⟨.missingCaseElse, span, .hint, none⟩] else []
  | .forLoop span _ _ _ _ body =>
    ofDepth c (depth + 1) span ++ ofEmpty .warning "FOR" span body ++ ofList c (depth + 1) {} body
  | .whileLoop span condition body =>
    ofCondition c condition ++ ofDepth c (depth + 1) span ++ ofEmpty .warning "WHILE" span body ++
      ofList c (depth + 1) {} body
  | .repeatLoop span body condition =>
    ofCondition c condition ++ ofDepth c (depth + 1) span ++ ofEmpty .warning "REPEAT" span body ++
      ofList c (depth + 1) {} body
  | .region _ _ body => ofList c depth {} body
  | .call _ _ _ args | .invoke _ _ args => ofInputs c args
  | .exitLoop _ | .nextPass _ | .leave _ _ | .empty _ | .goto _ _ | .label _ _ => []

/-- The smells of a list of statements, of which some have been seen before. -/
def ofList (c : SmellConfig) (depth : Nat) (b : Before) : List Stmt → List Diagnostic
  | [] => []
  | s :: ss =>
    let b := b.entering s
    b.smells c s ++ ofStmt c depth s ++ ofList c depth (b.leaving c s) ss

/-- The smells of the bodies of some branches. -/
def ofElsifs (c : SmellConfig) (depth : Nat) : List IfBranch → List Diagnostic
  | [] => []
  | .mk _ _ body :: bs => ofList c depth {} body ++ ofElsifs c depth bs

/-- The smells of the branches of a `CASE` statement. -/
def ofBranches (c : SmellConfig) (depth : Nat) : List CaseBranch → List Diagnostic
  | [] => []
  | .mk span _ body :: bs =>
    (if body.isEmpty then [⟨.emptyCaseBranch, span, .warning, none⟩] else []) ++
      ofList c depth {} body ++ ofBranches c depth bs

end

/-- A body that is too long, if its place is known. -/
def ofLength (c : SmellConfig) (place : Option Span) (body : List Stmt) : List Diagnostic :=
  let n : Int := (Stmt.walk body).length
  match place with
  | some span =>
    if n > c.maxStatements then
      [⟨.longBody n c.maxStatements, span, .graded n c.maxStatements, none⟩]
    else []
  | none => []

/-! ### Detectors -/

/-- A detector at work.  It may be used for one body after another. -/
structure Detector where
  /-- How many branches and loops have been entered and not left. -/
  nesting : Nat := 0
  /-- What has been found in the body at hand. -/
  found : List Diagnostic := []

namespace Detector

/-- What a detector does. -/
abbrev Act := StateM Detector

/-- Notes what has been found. -/
def report (ds : List Diagnostic) : Act Unit :=
  modify fun d => { d with found := d.found ++ ds }

/-- Enters a branch or loop, which may be too deep. -/
def enter (c : SmellConfig) (span : Span) : Act Unit := do
  modify fun d => { d with nesting := d.nesting + 1 }
  report (ofDepth c (← get).nesting span)

/-- Leaves a branch or loop. -/
def leave : Act Unit :=
  modify fun d => { d with nesting := d.nesting - 1 }

mutual

/-- Looks for the smells of a statement. -/
def checkStmt (c : SmellConfig) : Stmt → Act Unit
  | .assignment _ _ _ value => report (ofValue c value)
  | .ifThen span (.mk _ condition body) elsifs otherwise => do
    report (ofConditions c [] (condition :: elsifs.map IfBranch.condition))
    report (ofEmpty .warning "IF" span body)
    enter c span
    checkList c {} body
    checkElsifs c elsifs
    match otherwise with
    | some ss =>
      report (ofEmpty .hint "ELSE" span ss)
      checkList c {} ss
    | none => pure ()
    leave
  | .caseOf span _ branches otherwise => do
    enter c span
    checkBranches c branches
    match otherwise with
    | some ss => checkList c {} ss
    | none => report (if c.missingElse then [⟨.missingCaseElse, span, .hint, none⟩] else [])
    leave
  | .forLoop span _ _ _ _ body => do
    enter c span
    report (ofEmpty .warning "FOR" span body)
    checkList c {} body
    leave
  | .whileLoop span condition body => do
    report (ofCondition c condition)
    enter c span
    report (ofEmpty .warning "WHILE" span body)
    checkList c {} body
    leave
  | .repeatLoop span body condition => do
    report (ofCondition c condition)
    enter c span
    report (ofEmpty .warning "REPEAT" span body)
    checkList c {} body
    leave
  | .region _ _ body => checkList c {} body
  | .call _ _ _ args | .invoke _ _ args => report (ofInputs c args)
  | .exitLoop _ | .nextPass _ | .leave _ _ | .empty _ | .goto _ _ | .label _ _ => pure ()

/-- Looks for the smells of a list of statements, of which some have been seen before. -/
def checkList (c : SmellConfig) (b : Before) : List Stmt → Act Unit
  | [] => pure ()
  | s :: ss => do
    report ((b.entering s).smells c s)
    checkStmt c s
    checkList c ((b.entering s).leaving c s) ss

/-- Looks for the smells of the bodies of some branches. -/
def checkElsifs (c : SmellConfig) : List IfBranch → Act Unit
  | [] => pure ()
  | .mk _ _ body :: bs => do
    checkList c {} body
    checkElsifs c bs

/-- Looks for the smells of the branches of a `CASE` statement. -/
def checkBranches (c : SmellConfig) : List CaseBranch → Act Unit
  | [] => pure ()
  | .mk span _ body :: bs => do
    report (if body.isEmpty then [⟨.emptyCaseBranch, span, .warning, none⟩] else [])
    checkList c {} body
    checkBranches c bs

end

/-- The smells of a body.  The count of branches and loops starts anew. -/
def analyze (c : SmellConfig) (place : Option Span) (body : List Stmt) : Act (List Diagnostic) := do
  set (⟨0, ofLength c place body⟩ : Detector)
  checkList c {} body
  return (← get).found

/-- The smells of the body of a unit, and of those of its methods. -/
def analyzePou (c : SmellConfig) (p : Pou) : Act (List Diagnostic) := do
  let own ← analyze c (some p.code.span) p.code.body
  let others ← p.methods.mapM fun m => analyze c (some m.code.span) m.code.body
  return own ++ others.flatten

end Detector

/-- The smells of a body; if its place is known, it may also be too long. -/
def ofBody (c : SmellConfig) (place : Option Span) (body : List Stmt) : List Diagnostic :=
  ((Detector.analyze c place body).run {}).1

/-- The smells of the body of a unit, and of those of its methods. -/
def ofPou (c : SmellConfig) (p : Pou) : List Diagnostic :=
  ((Detector.analyzePou c p).run {}).1

/-! ### What detectors find -/

namespace Detector

/-- From one depth of nesting, the act goes to another one and finds something on the way. -/
def Finds (n : Nat) (act : Act Unit) (ds : List Diagnostic) (m : Nat) : Prop :=
  ∀ d : Detector, d.nesting = n → act.run d = ((), ⟨m, d.found ++ ds⟩)

variable {c : SmellConfig} {n m k : Nat} {act next : Act Unit} {ds es : List Diagnostic}

theorem Finds.congr (h : Finds n act ds m) (eq : ds = es) : Finds n act es m :=
  eq ▸ h

theorem finds_nothing : Finds n (pure ()) [] n := by
  intro d eq
  rw [List.append_nil, ← eq]
  rfl

theorem finds_report : Finds n (report ds) ds n := by
  intro d eq
  rw [← eq]
  rfl

theorem finds_enter (span : Span) : Finds n (enter c span) (ofDepth c (n + 1) span) (n + 1) := by
  intro d eq
  rw [← eq]
  rfl

theorem finds_leave : Finds (n + 1) leave [] n := by
  intro d eq
  rw [List.append_nil]
  show ((), (⟨d.nesting - 1, d.found⟩ : Detector)) = _
  rw [eq, Nat.add_sub_cancel]

/-- Two acts in a row. -/
theorem Finds.then (h : Finds n act ds m) (h' : Finds m next es k) :
    Finds n (act >>= fun _ => next) (ds ++ es) k := by
  intro d eq
  rw [StateT.run_bind, h d eq]
  exact (h' _ rfl).trans (by rw [List.append_assoc])

mutual

theorem finds_checkStmt (n : Nat) : ∀ s, Finds n (checkStmt c s) (ofStmt c n s) n
  -- The checking enters and leaves a depth; in between it finds, part after part, what the list has
  -- in the same order.
  | .assignment _ _ _ _ => finds_report
  | .ifThen span (.mk _ condition body) elsifs otherwise => by
    cases otherwise with
    | none =>
      refine (finds_report.then (finds_report.then ((finds_enter span).then
        ((finds_checkList (n + 1) {} body).then ((finds_checkElsifs (n + 1) elsifs).then
          (finds_nothing.then finds_leave)))))).congr ?_
      simp [ofStmt]
    | some ss =>
      refine (finds_report.then (finds_report.then ((finds_enter span).then
        ((finds_checkList (n + 1) {} body).then ((finds_checkElsifs (n + 1) elsifs).then
          ((finds_report.then (finds_checkList (n + 1) {} ss)).then finds_leave)))))).congr ?_
      simp [ofStmt]
  | .caseOf span _ branches otherwise => by
    cases otherwise with
    | none =>
      refine ((finds_enter span).then ((finds_checkBranches (n + 1) branches).then
        (finds_report.then finds_leave))).congr ?_
      simp [ofStmt]
    | some ss =>
      refine ((finds_enter span).then ((finds_checkBranches (n + 1) branches).then
        ((finds_checkList (n + 1) {} ss).then finds_leave))).congr ?_
      simp [ofStmt]
  | .forLoop span _ _ _ _ body => by
    refine ((finds_enter span).then (finds_report.then
      ((finds_checkList (n + 1) {} body).then finds_leave))).congr ?_
    simp [ofStmt]
  | .whileLoop span _ body | .repeatLoop span body _ => by
    refine (finds_report.then ((finds_enter span).then (finds_report.then
      ((finds_checkList (n + 1) {} body).then finds_leave)))).congr ?_
    simp [ofStmt]
  | .region _ _ body => finds_checkList n {} body
  | .call _ _ _ _ | .invoke _ _ _ => finds_report
  | .exitLoop _ | .nextPass _ | .leave _ _ | .empty _ | .goto _ _ | .label _ _ => finds_nothing

theorem finds_checkList (n : Nat) (b : Before) : ∀ ss, Finds n (checkList c b ss) (ofList c n b ss) n
  | [] => finds_nothing
  | s :: ss => by
    refine (finds_report.then ((finds_checkStmt n s).then
      (finds_checkList n ((b.entering s).leaving c s) ss))).congr ?_
    rw [ofList, List.append_assoc]

theorem finds_checkElsifs (n : Nat) : ∀ bs, Finds n (checkElsifs c bs) (ofElsifs c n bs) n
  | [] => finds_nothing
  | .mk _ _ body :: bs => (finds_checkList n {} body).then (finds_checkElsifs n bs)

theorem finds_checkBranches (n : Nat) : ∀ bs, Finds n (checkBranches c bs) (ofBranches c n bs) n
  | [] => finds_nothing
  | .mk _ _ body :: bs => by
    refine (finds_report.then ((finds_checkList n {} body).then
      (finds_checkBranches n bs))).congr ?_
    rw [ofBranches, List.append_assoc]

end

/-- What is found in a body does not depend on what the detector was used for before. -/
theorem run_analyze (place : Option Span) (body : List Stmt) (d : Detector) :
    (analyze c place body).run d =
      let found := ofLength c place body ++ ofList c 0 {} body
      (found, ⟨0, found⟩) := by
  have checked : (checkList c {} body).run ⟨0, ofLength c place body⟩ = _ :=
    finds_checkList 0 {} body _ rfl
  show ((checkList c {} body).run ⟨0, ofLength c place body⟩ >>= fun x =>
    (pure (x.2.found, x.2) : Id (List Diagnostic × Detector))) = _
  rw [checked]
  rfl

end Detector

variable (c : SmellConfig)

theorem ofBody_eq (place : Option Span) (body : List Stmt) :
    ofBody c place body = ofLength c place body ++ ofList c 0 {} body :=
  congrArg Prod.fst (Detector.run_analyze place body {})

theorem ofPou_eq (p : Pou) : ofPou c p = ofBody c (some p.code.span) p.code.body ++
    p.methods.flatMap fun m => ofBody c (some m.code.span) m.code.body := by
  have others (ms : List Method) (d : Detector) :
      ((ms.mapM fun m => Detector.analyze c (some m.code.span) m.code.body).run d).1 =
        ms.map fun m => ofBody c (some m.code.span) m.code.body := by
    induction ms generalizing d with
    | nil => rfl
    | cons m ms ih =>
      have rest := ih ((Detector.analyze c (some m.code.span) m.code.body).run d).2
      rw [List.mapM_cons, List.map_cons, ← rest, ofBody_eq]
      exact congrArg (· :: _) (congrArg Prod.fst (Detector.run_analyze _ _ d))
  have rest := others p.methods ((Detector.analyze c (some p.code.span) p.code.body).run {}).2
  rw [List.flatMap, ← rest]
  rfl

end Smell

end Plc

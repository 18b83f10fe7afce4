/-
The names of variables in a tree.

A tree names a variable at the root of each chain of accesses.  Two more places hold a name as bare
text: the counter of a loop, and the front of a dotted callee.  A label is bare text, too, and written
as a name; it counts among the names of a dialect with labels.

* `Expr.names`, `Stmt.names` — the names of variables in a tree;
* `Stmt.mention_of_names` — each is mentioned, or is the name of a result, a counter, the front of a
  dotted callee, or a label.
-/
import Mathlib.Data.List.Perm.Basic
import Plc.Model.Mention

namespace Plc

/-- The first name of a dotted one. -/
def pathFront (path : String) : String :=
  String.ofList (path.toList.takeWhile (· != '.'))

theorem pathFront_of_dotless {n : String} (h : '.' ∉ n.toList) : pathFront n = n := by
  have all (cs : List Char) (h : '.' ∉ cs) : cs.takeWhile (· != '.') = cs := by
    induction cs with
    | nil => rfl
    | cons c cs ih =>
      rw [List.mem_cons, not_or] at h
      rw [List.takeWhile_cons, if_pos (bne_iff_ne.2 (Ne.symm h.1)), ih h.2]
  rw [pathFront, all _ h, String.ofList_toList]

theorem pathFront_member (p m : String) : pathFront (p ++ "." ++ m) = pathFront p := by
  have front (cs ds : List Char) :
      (cs ++ '.' :: ds).takeWhile (· != '.') = cs.takeWhile (· != '.') := by
    induction cs with
    | nil => rfl
    | cons c cs ih => simp only [List.cons_append, List.takeWhile_cons, ih]
  have chars : (p ++ "." ++ m).toList = p.toList ++ '.' :: m.toList := by
    simp [String.toList_append]
  rw [pathFront, chars, front, pathFront]

/-- The callee, for a call. -/
def Expr.callee? : Expr → Option String
  | .call _ name _ => some name
  | _ => none

/-- The callees of the calls in an expression. -/
def Expr.callees (e : Expr) : List String :=
  e.subexpressions.filterMap Expr.callee?

/-- The variable that a callee names: what stands in front of the points, or the name itself if it
is declared. -/
def calleeNames (declared : List String) (callee : String) : List String :=
  if '.' ∈ callee.toList then [pathFront callee]
  else if callee ∈ declared then [callee] else []

theorem calleeNames_subset {declared names : List String} {callee : String}
    (h : pathFront callee ∈ names) : calleeNames declared callee ⊆ names := by
  unfold calleeNames
  split
  · exact List.cons_subset.2 ⟨h, List.nil_subset _⟩
  next dotless =>
  rw [pathFront_of_dotless dotless] at h
  split
  · exact List.cons_subset.2 ⟨h, List.nil_subset _⟩
  · exact List.nil_subset _

/-- The name at the root is written without quotes and without a `#`. -/
def Variable.isPlain : Variable → Bool
  | .named _ _ style => style == .plain
  | .address _ _ _ => false
  | .member _ b _ | .element _ b _ | .deref _ b => b.isPlain

/-- The name at the root, if it is written without quotes and without a `#`. -/
def Variable.plainRoot? (v : Variable) : Option String :=
  if v.isPlain then v.root? else none

/-- The names at the roots of chains of accesses that are written plainly. -/
def plainNames (accesses : List (String × Variable)) : List String :=
  (accesses.filter (·.2.isPlain)).map (·.1)

theorem plainNames_append (xs ys : List (String × Variable)) :
    plainNames (xs ++ ys) = plainNames xs ++ plainNames ys := by
  rw [plainNames, List.filter_append, List.map_append, plainNames, plainNames]

theorem plainNames_ownAccess (v : Variable) : plainNames v.ownAccess = v.plainRoot?.toList := by
  unfold Variable.ownAccess Variable.plainRoot?
  cases v.root? with
  | none => cases v.isPlain <;> rfl
  | some n => cases plain : v.isPlain <;> simp [plainNames, plain]

/-- The names of variables in an expression. -/
def Expr.names (declared : List String) (e : Expr) : List String :=
  plainNames e.accesses ++ e.callees.flatMap (calleeNames declared)

/-- The names of variables in a variable and its indices. -/
def Variable.names (declared : List String) (v : Variable) : List String :=
  (Expr.variable v).names declared

/-- The names of variables in an argument; the name of the argument is none. -/
def Arg.names (declared : List String) (a : Arg) : List String :=
  a.expr?.toList.flatMap (Expr.names declared)

/-- The names of variables in a label. -/
def CaseSelector.names (declared : List String) (c : CaseSelector) : List String :=
  c.roots.flatMap (Expr.names declared)

/-- The counter, for a loop that counts. -/
def Stmt.control? : Stmt → Option String
  | .forLoop _ control _ _ _ _ => some control
  | _ => none

/-- The label, for a jump to it or the place that it names. -/
def Stmt.label? : Stmt → Option String
  | .goto _ target => some target
  | .label _ name => some name
  | _ => none

/-- The names in a statement of a dialect, those of its bodies aside: the names of variables, and
labels where there are any. -/
def Stmt.ownNames (d : Dialect) (declared : List String) (s : Stmt) : List String :=
  s.control?.toList ++ (if d.blocks then s.label?.toList else []) ++
    s.roots.flatMap (Expr.names declared)

/-- The names in statements. -/
def Stmt.namesAll (d : Dialect) (declared : List String) (ss : List Stmt) : List String :=
  (Stmt.flattenAll ss).flatMap (Stmt.ownNames d declared)

/-- The names in a statement, those of its bodies included. -/
abbrev Stmt.names (d : Dialect) (declared : List String) (s : Stmt) : List String :=
  Stmt.namesAll d declared [s]

/-- The names in a branch. -/
def IfBranch.names (d : Dialect) (declared : List String) (b : IfBranch) : List String :=
  b.condition.names declared ++ Stmt.namesAll d declared b.body

/-- The names in a branch. -/
def CaseBranch.names (d : Dialect) (declared : List String) (b : CaseBranch) : List String :=
  b.selectors.flatMap (CaseSelector.names declared) ++ Stmt.namesAll d declared b.body

section

variable {d : Dialect} {D : List String} {n : String}

/-! ### Expressions -/

theorem Arg.flatMap_names (as : List Arg) :
    as.flatMap (Arg.names D) = (as.filterMap Arg.expr?).flatMap (Expr.names D) := by
  induction as with
  | nil => rfl
  | cons a as ih =>
    rw [List.flatMap_cons, ih]
    cases a <;> simp [List.filterMap_cons, expr?, names]

/-- The names in a list of expressions. -/
theorem Expr.mem_flatMap_names {xs : List Expr} : n ∈ xs.flatMap (Expr.names D) ↔
    n ∈ plainNames (Expr.accessesAll xs) ∨
      n ∈ ((Expr.subexpressionsAll xs).filterMap callee?).flatMap (calleeNames D) := by
  induction xs with
  | nil => simp [accessesAll, subexpressionsAll, plainNames]
  | cons x xs ih =>
    simp only [List.flatMap_cons, List.mem_append, ih, accessesAll, subexpressionsAll, names, callees,
      plainNames_append, List.filterMap_append, List.flatMap_append]
    exact or_or_or_comm

theorem Expr.mem_names_unary {s : Span} {op : UnaryOp} {x : Expr} :
    n ∈ (Expr.unary s op x).names D ↔ n ∈ x.names D :=
  Iff.rfl

theorem Expr.mem_names_paren {s : Span} {x : Expr} :
    n ∈ (Expr.paren s x).names D ↔ n ∈ x.names D :=
  Iff.rfl

theorem Expr.mem_names_binary {s : Span} {op : BinaryOp} {l r : Expr} :
    n ∈ (Expr.binary s op l r).names D ↔ n ∈ l.names D ∨ n ∈ r.names D := by
  have own : (Expr.binary s op l r).names D = plainNames (l.accesses ++ r.accesses) ++
      ((l.subexpressions ++ r.subexpressions).filterMap callee?).flatMap (calleeNames D) := rfl
  rw [own]
  simp only [names, callees, List.filterMap_append, plainNames_append, List.flatMap_append,
    List.mem_append]
  exact or_or_or_comm

theorem Expr.mem_names_call {s : Span} {callee : String} {args : List Arg} :
    n ∈ (Expr.call s callee args).names D ↔
      n ∈ calleeNames D callee ∨ n ∈ args.flatMap (Arg.names D) := by
  have own : (Expr.call s callee args).names D = plainNames (Arg.accessesAll args) ++
      (calleeNames D callee ++
        ((Arg.subexpressionsAll args).filterMap callee?).flatMap (calleeNames D)) := rfl
  rw [own, Arg.flatMap_names, mem_flatMap_names, Arg.accessesAll_eq, Arg.subexpressionsAll_eq,
    List.mem_append, List.mem_append]
  exact or_left_comm

/-- The names in a variable: the name at its root if it is plain, and those in its indices. -/
theorem Variable.names_eq (v : Variable) : v.names D =
    v.plainRoot?.toList ++ plainNames v.innerAccesses ++
      (v.subexpressions.filterMap Expr.callee?).flatMap (calleeNames D) := by
  have whole : v.names D = plainNames (v.ownAccess ++ v.innerAccesses) ++
      (v.subexpressions.filterMap Expr.callee?).flatMap (calleeNames D) := rfl
  rw [whole, plainNames_append, plainNames_ownAccess]

theorem Variable.names_member {s : Span} {b : Variable} {m : String} :
    (Variable.member s b m).names D = b.names D := by
  rw [names_eq, names_eq]
  rfl

theorem Variable.names_deref {s : Span} {b : Variable} :
    (Variable.deref s b).names D = b.names D := by
  rw [names_eq, names_eq]
  rfl

theorem Variable.mem_names_element {s : Span} {b : Variable} {is : List Expr} :
    n ∈ (Variable.element s b is).names D ↔ n ∈ b.names D ∨ n ∈ is.flatMap (Expr.names D) := by
  have other : Expr.callee? (.variable (.element s b is)) = none := rfl
  have root : (Variable.element s b is).plainRoot? = b.plainRoot? := rfl
  simp only [Expr.mem_flatMap_names, names_eq, root, innerAccesses, subexpressions, other,
    List.filterMap_cons_none, List.filterMap_append, plainNames_append, List.flatMap_append,
    List.mem_append]
  exact (or_congr_left or_assoc.symm).trans or_or_or_comm

/-- Another place has the same names. -/
theorem Expr.names_withSpan (s : Span) (e : Expr) : (e.withSpan s).names D = e.names D := by
  cases e with
  | «variable» v =>
    show (v.withSpan s).names D = v.names D
    rw [Variable.names_eq, Variable.names_eq]
    cases v <;> rfl
  | repeated _ n x => cases x <;> rfl
  | _ => rfl

/-- A dotted name is the name of one variable, the one at its root. -/
theorem Variable.names_of_path {p : String} : ∀ {v : Variable}, v.path? = some p →
    v.names D = v.plainRoot?.toList
  | .named _ _ _, _ => by
    rw [names_eq]
    simp [innerAccesses, subexpressions, plainNames, Expr.callee?]
  | .member _ b _, h => by
    obtain ⟨q, base, -⟩ := Option.map_eq_some_iff.1 h
    rw [names_member, names_of_path base]
    rfl

/-! ### Statements -/

theorem Stmt.namesAll_append (ss ss' : List Stmt) :
    Stmt.namesAll d D (ss ++ ss') = Stmt.namesAll d D ss ++ Stmt.namesAll d D ss' := by
  have flat : Stmt.flattenAll (ss ++ ss') = Stmt.flattenAll ss ++ Stmt.flattenAll ss' := by
    induction ss with
    | nil => rfl
    | cons s ss ih => simp [ih]
  rw [namesAll, flat, List.flatMap_append, namesAll, namesAll]

theorem Stmt.names_eq (s : Stmt) : s.names d D = s.flatten.flatMap (Stmt.ownNames d D) := by
  rw [names, namesAll, flattenAll_cons, flattenAll_nil, List.append_nil]

theorem Stmt.namesAll_flatten (bodies : List (List Stmt)) :
    Stmt.namesAll d D bodies.flatten = bodies.flatMap (Stmt.namesAll d D) := by
  induction bodies with
  | nil => rfl
  | cons ss bodies ih => rw [List.flatten_cons, namesAll_append, ih, List.flatMap_cons]

/-- The names in a statement: its own, and those in its bodies. -/
theorem Stmt.names_eq_append (s : Stmt) :
    s.names d D = s.ownNames d D ++ s.bodies.flatMap (Stmt.namesAll d D) := by
  rw [names_eq, flatten_eq, List.flatMap_cons, ← flattenAll_eq, ← namesAll_flatten]
  rfl

/-- Where no label stands in a statement itself. -/
theorem Stmt.ownNames_eq {s : Stmt} (unlabelled : s.label? = none) :
    s.ownNames d D = s.control?.toList ++ s.roots.flatMap (Expr.names D) := by
  rw [ownNames, unlabelled, Option.toList_none, ite_self, List.append_nil]

/-- What a construct has in its last body, if it has one. -/
theorem Stmt.flatMap_namesAll_toList (otherwise : Option (List Stmt)) :
    otherwise.toList.flatMap (Stmt.namesAll d D) = Stmt.namesAll d D (otherwise.getD []) := by
  cases otherwise with
  | none => rfl
  | some ss => exact List.append_nil _

theorem mem_flatMap_append {α : Type} {f g : α → List String} {xs : List α} :
    (n ∈ xs.flatMap fun x => f x ++ g x) ↔ n ∈ xs.flatMap f ∨ n ∈ xs.flatMap g := by
  rw [← (List.flatMap_append_perm xs f g).mem_iff, List.mem_append]

theorem Stmt.mem_names_ifThen {s : Span} {first : IfBranch} {elsifs : List IfBranch}
    {otherwise : Option (List Stmt)} : n ∈ Stmt.names d D (.ifThen s first elsifs otherwise) ↔
      n ∈ first.names d D ∨ n ∈ elsifs.flatMap (IfBranch.names d D) ∨
        n ∈ Stmt.namesAll d D (otherwise.getD []) := by
  rw [names_eq_append, ownNames_eq rfl, List.mem_append]
  show n ∈ (first.condition :: elsifs.map IfBranch.condition).flatMap (Expr.names D) ∨
    n ∈ (first.body :: elsifs.map IfBranch.body ++ otherwise.toList).flatMap (Stmt.namesAll d D) ↔
      n ∈ first.condition.names D ++ Stmt.namesAll d D first.body ∨
        (n ∈ elsifs.flatMap fun b => b.condition.names D ++ Stmt.namesAll d D b.body) ∨ _
  rw [List.flatMap_cons, List.flatMap_map, List.flatMap_append, flatMap_namesAll_toList,
    List.flatMap_cons, List.flatMap_map, mem_flatMap_append]
  simp only [List.mem_append, or_assoc, or_left_comm]

theorem Stmt.mem_names_caseOf {s : Span} {selector : Expr} {branches : List CaseBranch}
    {otherwise : Option (List Stmt)} : n ∈ Stmt.names d D (.caseOf s selector branches otherwise) ↔
      n ∈ selector.names D ∨ n ∈ branches.flatMap (CaseBranch.names d D) ∨
        n ∈ Stmt.namesAll d D (otherwise.getD []) := by
  have labels (b : CaseBranch) : b.selectors.flatMap (CaseSelector.names D) =
      (b.selectors.flatMap CaseSelector.roots).flatMap (Expr.names D) := by
    rw [List.flatMap_assoc]
    rfl
  rw [names_eq_append, ownNames_eq rfl, List.mem_append]
  show n ∈ (selector :: branches.flatMap fun b => b.selectors.flatMap CaseSelector.roots).flatMap
      (Expr.names D) ∨
    n ∈ (branches.map CaseBranch.body ++ otherwise.toList).flatMap (Stmt.namesAll d D) ↔
      _ ∨ (n ∈ branches.flatMap fun b => b.selectors.flatMap (CaseSelector.names D) ++
        Stmt.namesAll d D b.body) ∨ _
  rw [List.flatMap_cons, List.flatMap_assoc, List.flatMap_append, flatMap_namesAll_toList,
    List.flatMap_map, mem_flatMap_append]
  simp only [labels, List.mem_append, or_assoc]

/-- The names in a statement with one body and no label. -/
theorem Stmt.names_loop {s : Stmt} {body : List Stmt} (one : s.bodies = [body])
    (unlabelled : s.label? = none) : s.names d D =
      s.control?.toList ++ s.roots.flatMap (Expr.names D) ++ Stmt.namesAll d D body := by
  rw [names_eq_append, ownNames_eq unlabelled, one, List.flatMap_singleton]

/-- The statements whose bodies are not branches. -/
theorem Stmt.names_forLoop {s : Span} {control : String} {start stop : Expr} {step : Option Expr}
    {body : List Stmt} : Stmt.names d D (.forLoop s control start stop step body) =
      control :: (start.names D ++ (stop.names D ++ step.toList.flatMap (Expr.names D))) ++
        Stmt.namesAll d D body :=
  names_loop rfl rfl

theorem Stmt.names_whileLoop {s : Span} {condition : Expr} {body : List Stmt} :
    Stmt.names d D (.whileLoop s condition body) = condition.names D ++ Stmt.namesAll d D body := by
  rw [names_loop rfl rfl]
  exact congrArg (· ++ _) (List.append_nil _)

theorem Stmt.mem_names_repeatLoop {s : Span} {condition : Expr} {body : List Stmt} :
    n ∈ Stmt.names d D (.repeatLoop s body condition) ↔
      n ∈ Stmt.namesAll d D body ∨ n ∈ condition.names D := by
  rw [names_loop rfl rfl, List.mem_append, or_comm]
  exact or_congr_right (by rw [← List.append_nil (condition.names D)]; rfl)

theorem Stmt.names_region {s : Span} {title : String} {body : List Stmt} :
    Stmt.names d D (.region s title body) = Stmt.namesAll d D body :=
  names_loop rfl rfl

/-- A statement without bodies has the names of its own expressions. -/
theorem Stmt.names_simple {s : Stmt} (simple : s.flatten = [s]) (free : s.control? = none)
    (unlabelled : s.label? = none) : s.names d D = s.roots.flatMap (Expr.names D) := by
  rw [names_eq, simple, List.flatMap_singleton, ownNames_eq unlabelled, free]
  rfl

/-- A jump, and the place that it goes to, have a label in a dialect with labels. -/
theorem Stmt.mem_names_label {s : Stmt} {label : String} (blocks : d.blocks = true)
    (simple : s.flatten = [s]) (labelled : s.label? = some label) : label ∈ s.names d D := by
  rw [names_eq, simple, List.flatMap_singleton, ownNames, if_pos blocks, labelled]
  simp

/-! ### Mentions -/

/-- The counters of the loops in statements. -/
def Stmt.controls (ss : List Stmt) : List String :=
  (Stmt.flattenAll ss).filterMap Stmt.control?

/-- The callees of all calls in statements. -/
def Stmt.callees (ss : List Stmt) : List String :=
  (Stmt.expressions ss).filterMap Expr.callee?

/-- The labels in statements, and those that are jumped to. -/
def Stmt.labels (ss : List Stmt) : List String :=
  (Stmt.flattenAll ss).filterMap Stmt.label?

open Model in
/-- A name in statements is mentioned as a tag, unless it is the name of the result, or text in the
tree: the counter of a loop, what stands in front of a dotted callee, or a label. -/
theorem Stmt.mention_of_names {s : Surroundings} {ss : List Stmt}
    (h : n ∈ Stmt.namesAll d s.vars ss) :
    (∃ r, .tag r ∈ Mention.ofStatements s ss ∧ r.tag = n) ∨ s.result = some n ∨
      n ∈ Stmt.controls ss ∨
      (∃ callee ∈ Stmt.callees ss, '.' ∈ callee.toList ∧ pathFront callee = n) ∨
      d.blocks = true ∧ n ∈ Stmt.labels ss := by
  obtain ⟨stmt, hs, own⟩ := List.mem_flatMap.1 h
  -- A name is the statement's own text, or it stands in one of its expressions.
  obtain bare | inRoot := List.mem_append.1 own
  · obtain control | label := List.mem_append.1 bare
    · exact .inr <| .inr <| .inl <| List.mem_filterMap.2 ⟨stmt, hs, Option.mem_toList.1 control⟩
    · split at label
      · next blocks =>
        exact .inr <| .inr <| .inr <| .inr
          ⟨blocks, List.mem_filterMap.2 ⟨stmt, hs, Option.mem_toList.1 label⟩⟩
      · cases label
  obtain ⟨root, hr, inExpr⟩ := List.mem_flatMap.1 inRoot
  have said {m : Mention} (hm : m ∈ Mention.ofExpr s root) : m ∈ Mention.ofStatements s ss :=
    List.mem_flatMap.2 ⟨stmt, hs, List.mem_flatMap.2 ⟨root, hr, hm⟩⟩
  -- There it is the root of an access, or the front of a callee.
  obtain access | call := List.mem_append.1 inExpr
  · obtain ⟨⟨m, v⟩, found, rfl⟩ := List.mem_map.1 access
    have ha := (List.mem_filter.1 found).1
    by_cases own : s.result = some m
    · exact .inr (.inl own)
    · refine .inl ⟨_, said (List.mem_append_left _ (List.mem_map.2 ⟨(m, v), ?_, rfl⟩)), rfl⟩
      simpa using ⟨ha, Ne.symm own⟩
  · obtain ⟨callee, hc, mem⟩ := List.mem_flatMap.1 call
    obtain ⟨x, hx, isCall⟩ := List.mem_filterMap.1 hc
    have listed : callee ∈ Stmt.callees ss := List.mem_filterMap.2
      ⟨x, List.mem_flatMap.2 ⟨stmt, hs, List.mem_flatMap.2 ⟨root, hr, hx⟩⟩, isCall⟩
    unfold calleeNames at mem
    split at mem
    · next dotted =>
      exact .inr <| .inr <| .inr <| .inl ⟨callee, listed, dotted, (List.mem_singleton.1 mem).symm⟩
    · split at mem
      · next known =>
        cases List.mem_singleton.1 mem
        refine .inl ⟨⟨n, n, "ST", ⟨s.pou, none, none⟩⟩, said (List.mem_append_right _ ?_), rfl⟩
        refine List.mem_filterMap.2 ⟨x, hx, ?_⟩
        cases x with
        | call place name args =>
          cases isCall
          simp [Mention.ofCallee, known]
        | _ => cases isCall
      · cases mem

end

end Plc

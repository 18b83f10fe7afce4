/-
Statement-level calls, and what may become of them.

The call of a declared name is an invocation of a function block instance, every other one the call of
a function.  Both come from the same text; so what declared names make of it can be told from a tree
in which no call has been decided yet and each still has its callee as a variable.

* `Stmt.mapCalls` — a statement with every statement-level call in it changed;
* `Stmt.Undecided` — every statement-level call still has its callee as a variable;
* `Stmt.decided` — what declared names make of such a tree;
* `Stmt.callsOnly` — the tree in which no name at all is declared;
* `Twins` — two nodes are what two functions make of one.
-/
import Plc.Tree.Walk

namespace Plc

/-! ### Calls in statements -/

mutual

/-- The statement with every statement-level call in it changed. -/
def Stmt.mapCalls (f : Stmt → Stmt) : Stmt → Stmt
  | .call s callSpan name args => f (.call s callSpan name args)
  | .invoke s callee args => f (.invoke s callee args)
  | .ifThen s first elsifs none => .ifThen s (first.mapCalls f) (IfBranch.mapCallsAll f elsifs) none
  | .ifThen s first elsifs (some ss) =>
    .ifThen s (first.mapCalls f) (IfBranch.mapCallsAll f elsifs) (some (Stmt.mapCallsAll f ss))
  | .caseOf s selector branches none => .caseOf s selector (CaseBranch.mapCallsAll f branches) none
  | .caseOf s selector branches (some ss) =>
    .caseOf s selector (CaseBranch.mapCallsAll f branches) (some (Stmt.mapCallsAll f ss))
  | .forLoop s control start stop step body =>
    .forLoop s control start stop step (Stmt.mapCallsAll f body)
  | .whileLoop s condition body => .whileLoop s condition (Stmt.mapCallsAll f body)
  | .repeatLoop s body condition => .repeatLoop s (Stmt.mapCallsAll f body) condition
  | .region s title body => .region s title (Stmt.mapCallsAll f body)
  | .assignment s target op value => .assignment s target op value
  | .exitLoop s => .exitLoop s
  | .nextPass s => .nextPass s
  | .leave s value => .leave s value
  | .empty s => .empty s
  | .goto s label => .goto s label
  | .label s name => .label s name

/-- The branch with every statement-level call in it changed. -/
def IfBranch.mapCalls (f : Stmt → Stmt) : IfBranch → IfBranch
  | .mk s condition body => .mk s condition (Stmt.mapCallsAll f body)

/-- The branch with every statement-level call in it changed. -/
def CaseBranch.mapCalls (f : Stmt → Stmt) : CaseBranch → CaseBranch
  | .mk s selectors body => .mk s selectors (Stmt.mapCallsAll f body)

/-- Each statement of a list. -/
def Stmt.mapCallsAll (f : Stmt → Stmt) : List Stmt → List Stmt
  | [] => []
  | t :: ts => t.mapCalls f :: Stmt.mapCallsAll f ts

/-- Each branch of a list. -/
def IfBranch.mapCallsAll (f : Stmt → Stmt) : List IfBranch → List IfBranch
  | [] => []
  | b :: bs => b.mapCalls f :: IfBranch.mapCallsAll f bs

/-- Each branch of a list. -/
def CaseBranch.mapCallsAll (f : Stmt → Stmt) : List CaseBranch → List CaseBranch
  | [] => []
  | b :: bs => b.mapCalls f :: CaseBranch.mapCallsAll f bs

end

section

variable (f g h : Stmt → Stmt)

theorem Stmt.mapCallsAll_eq (ts : List Stmt) : Stmt.mapCallsAll f ts = ts.map (mapCalls f) := by
  induction ts with
  | nil => rfl
  | cons t ts ih => exact congrArg (List.cons (t.mapCalls f)) ih

theorem IfBranch.mapCallsAll_eq (bs : List IfBranch) :
    IfBranch.mapCallsAll f bs = bs.map (mapCalls f) := by
  induction bs with
  | nil => rfl
  | cons b bs ih => exact congrArg (List.cons (b.mapCalls f)) ih

theorem CaseBranch.mapCallsAll_eq (bs : List CaseBranch) :
    CaseBranch.mapCallsAll f bs = bs.map (mapCalls f) := by
  induction bs with
  | nil => rfl
  | cons b bs ih => exact congrArg (List.cons (b.mapCalls f)) ih

theorem IfBranch.mapCalls_eq (b : IfBranch) :
    b.mapCalls f = .mk b.span b.condition (b.body.map (Stmt.mapCalls f)) := by
  cases b with
  | mk s condition body => exact congrArg (IfBranch.mk s condition) (Stmt.mapCallsAll_eq f body)

theorem CaseBranch.mapCalls_eq (b : CaseBranch) :
    b.mapCalls f = .mk b.span b.selectors (b.body.map (Stmt.mapCalls f)) := by
  cases b with
  | mk s selectors body => exact congrArg (CaseBranch.mk s selectors) (Stmt.mapCallsAll_eq f body)

theorem Stmt.mapCalls_ifThen (s : Span) (first : IfBranch) (elsifs : List IfBranch)
    (otherwise : Option (List Stmt)) :
    (Stmt.ifThen s first elsifs otherwise).mapCalls f =
      .ifThen s (first.mapCalls f) (elsifs.map (IfBranch.mapCalls f))
        (otherwise.map (List.map (mapCalls f))) := by
  rw [← IfBranch.mapCallsAll_eq]
  cases otherwise with
  | none => rfl
  | some ss =>
    rw [Option.map_some, ← mapCallsAll_eq]
    rfl

theorem Stmt.mapCalls_caseOf (s : Span) (selector : Expr) (branches : List CaseBranch)
    (otherwise : Option (List Stmt)) :
    (Stmt.caseOf s selector branches otherwise).mapCalls f =
      .caseOf s selector (branches.map (CaseBranch.mapCalls f))
        (otherwise.map (List.map (mapCalls f))) := by
  rw [← CaseBranch.mapCallsAll_eq]
  cases otherwise with
  | none => rfl
  | some ss =>
    rw [Option.map_some, ← mapCallsAll_eq]
    rfl

theorem Stmt.mapCalls_forLoop (s : Span) (control : String) (start stop : Expr) (step : Option Expr)
    (body : List Stmt) :
    (Stmt.forLoop s control start stop step body).mapCalls f =
      .forLoop s control start stop step (body.map (mapCalls f)) :=
  congrArg (Stmt.forLoop s control start stop step) (mapCallsAll_eq f body)

theorem Stmt.mapCalls_whileLoop (s : Span) (condition : Expr) (body : List Stmt) :
    (Stmt.whileLoop s condition body).mapCalls f = .whileLoop s condition (body.map (mapCalls f)) :=
  congrArg (Stmt.whileLoop s condition) (mapCallsAll_eq f body)

theorem Stmt.mapCalls_repeatLoop (s : Span) (condition : Expr) (body : List Stmt) :
    (Stmt.repeatLoop s body condition).mapCalls f = .repeatLoop s (body.map (mapCalls f)) condition :=
  congrArg (Stmt.repeatLoop s · condition) (mapCallsAll_eq f body)

theorem Stmt.mapCalls_region (s : Span) (title : String) (body : List Stmt) :
    (Stmt.region s title body).mapCalls f = .region s title (body.map (mapCalls f)) :=
  congrArg (Stmt.region s title) (mapCallsAll_eq f body)

variable {f g h}

/-- Calls that are changed twice are changed once, if that holds of each call. -/
theorem Stmt.mapCalls_mapCalls
    (call : ∀ s callSpan name args,
      (f (.call s callSpan name args)).mapCalls g = h (.call s callSpan name args))
    (invoke : ∀ s callee args, (f (.invoke s callee args)).mapCalls g = h (.invoke s callee args))
    (t : Stmt) : (t.mapCalls f).mapCalls g = t.mapCalls h := by
  -- Induction on the size of the statement, with the hypothesis for all statements in its bodies.
  induction t using Stmt.anatomy.induction with
  | step t ih =>
    -- for one body, and for the `ELSE` part that may be missing
    have all {ts : List Stmt} (mem : ts ∈ t.bodies) :
        (ts.map (mapCalls f)).map (mapCalls g) = ts.map (mapCalls h) := by
      rw [List.map_map]
      exact List.map_congr_left fun u hu => ih u (List.mem_flatten_of_mem mem hu)
    have others {o : Option (List Stmt)} (mem : ∀ ts ∈ o, ts ∈ t.bodies) :
        (o.map (List.map (mapCalls f))).map (List.map (mapCalls g)) = o.map (List.map (mapCalls h)) := by
      cases o with
      | none => rfl
      | some ts => exact congrArg some (all (mem ts rfl))
    cases t with
    | call => exact call ..
    | invoke => exact invoke ..
    | ifThen s first elsifs otherwise =>
      have branch (b : IfBranch) (mem : b = first ∨ b ∈ elsifs) :
          (b.mapCalls f).mapCalls g = b.mapCalls h := by
        rw [IfBranch.mapCalls_eq, IfBranch.mapCalls_eq, IfBranch.mapCalls_eq h]
        refine congrArg (IfBranch.mk b.span b.condition) (all ?_)
        rcases mem with rfl | mem
        · exact List.mem_cons_self
        · exact List.mem_append_left _ (List.mem_cons_of_mem _ (List.mem_map_of_mem mem))
      -- Branches are changed by changing their bodies.
      have later : (elsifs.map (IfBranch.mapCalls f)).map (IfBranch.mapCalls g) =
          elsifs.map (IfBranch.mapCalls h) := by
        rw [List.map_map]
        exact List.map_congr_left fun b mem => branch b (.inr mem)
      rw [mapCalls_ifThen, mapCalls_ifThen, mapCalls_ifThen, branch first (.inl rfl), later,
        others fun ts mem => List.mem_append_right _ (Option.mem_toList.2 mem)]
    | caseOf s selector branches otherwise =>
      have branch (b : CaseBranch) (mem : b ∈ branches) :
          (b.mapCalls f).mapCalls g = b.mapCalls h := by
        rw [CaseBranch.mapCalls_eq, CaseBranch.mapCalls_eq, CaseBranch.mapCalls_eq h]
        refine congrArg (CaseBranch.mk b.span b.selectors) (all ?_)
        exact List.mem_append_left _ (List.mem_map_of_mem mem)
      have each : (branches.map (CaseBranch.mapCalls f)).map (CaseBranch.mapCalls g) =
          branches.map (CaseBranch.mapCalls h) := by
        rw [List.map_map]
        exact List.map_congr_left branch
      rw [mapCalls_caseOf, mapCalls_caseOf, mapCalls_caseOf, each,
        others fun ts mem => List.mem_append_right _ (Option.mem_toList.2 mem)]
    -- one body each
    | forLoop _ _ _ _ _ body | whileLoop _ _ body | repeatLoop _ body _ | region _ _ body =>
      have same := all (List.mem_singleton.2 rfl)
      simp only [mapCalls_forLoop, mapCalls_whileLoop, mapCalls_repeatLoop, mapCalls_region, same]
    | _ => rfl

end

/-! ### Calls that have not been decided -/

namespace Stmt

/-- A call as a statement of its own, if it is one at all, has its callee as a variable with a path. -/
def NamesCallee : Stmt → Prop
  | .call _ _ _ _ => False
  | .invoke _ callee _ => callee.path?.isSome = true
  | _ => True

/-- Every statement-level call in the statement still has its callee as a variable. -/
def Undecided (t : Stmt) : Prop :=
  ∀ u ∈ t.flatten, u.NamesCallee

theorem undecided_iff {t : Stmt} : t.Undecided ↔ t.NamesCallee ∧ ∀ u ∈ t.bodies.flatten, u.Undecided := by
  unfold Undecided
  rw [flatten_eq, List.forall_mem_cons]
  simp only [List.mem_flatMap, forall_exists_index, and_imp]
  exact and_congr_right fun _ => ⟨fun h u hu v hv => h v u hu hv, fun h v u hu hv => h u hu v hv⟩

/-- The call without the place of its own, which an invocation does not have. -/
def blurCall : Stmt → Stmt
  | .call s _ name args => .call s .zero name args
  | t => t

/-- What becomes of an undecided call when the given names are declared. -/
def decideCall (declared : List String) : Stmt → Stmt
  | .invoke s callee args =>
    if declared.contains (callee.root?.getD "") then .invoke s callee args
    else .call s .zero (callee.path?.getD "") args
  | t => t

theorem decideCall_invoke (declared : List String) (s : Span) (callee : Variable) (args : List Arg) :
    decideCall declared (.invoke s callee args) =
      if declared.contains (callee.root?.getD "") then .invoke s callee args
      else .call s .zero (callee.path?.getD "") args :=
  rfl

/-- An invocation as the call of a function with the path of the instance for a name. -/
def asCall : Stmt → Stmt
  | .invoke s callee args => .call s .zero (callee.path?.getD "") args
  | t => t.blurCall

/-- The statement without the places of calls. -/
def blurred (t : Stmt) : Stmt :=
  t.mapCalls blurCall

/-- What becomes of an undecided statement when the given names are declared. -/
def decided (declared : List String) (t : Stmt) : Stmt :=
  t.mapCalls (decideCall declared)

/-- The statement with the call of a function for every invocation, without the places of calls. -/
def callsOnly (t : Stmt) : Stmt :=
  t.mapCalls asCall

section

variable {declared : List String} {callee : Variable} {name : String}

theorem root_of_path (path : callee.path? = some name) :
    callee.root?.getD name = callee.root?.getD "" := by
  obtain ⟨root, hroot⟩ := Option.isSome_iff_exists.1 (Variable.root?_isSome_of_path? path)
  rw [hroot]
  rfl

/-- The call of a declared name is an invocation. -/
theorem blurred_invoke (path : callee.path? = some name)
    (known : declared.contains (callee.root?.getD name) = true) (s : Span) (args : List Arg) :
    (Stmt.invoke s callee args).blurred = (Stmt.invoke s callee args).decided declared := by
  rw [root_of_path path] at known
  exact (if_pos known).symm

/-- The call of any other name is the call of a function. -/
theorem blurred_call (path : callee.path? = some name)
    (unknown : ¬declared.contains (callee.root?.getD name) = true) (s callSpan : Span)
    (args : List Arg) :
    (Stmt.call s callSpan name args).blurred = (Stmt.invoke s callee args).decided declared := by
  rw [root_of_path path] at unknown
  show Stmt.call s .zero name args = decideCall declared (.invoke s callee args)
  rw [decideCall_invoke, if_neg unknown, path]
  rfl

end

/-- Without the places of calls, the calls of functions are the same. -/
theorem callsOnly_blurred (t : Stmt) : t.blurred.callsOnly = t.callsOnly :=
  mapCalls_mapCalls (fun _ _ _ _ => rfl) (fun _ _ _ => rfl) t

/-- Whatever is declared, the calls of functions are the same. -/
theorem callsOnly_decided (declared : List String) (t : Stmt) :
    (t.decided declared).callsOnly = t.callsOnly := by
  refine mapCalls_mapCalls (fun _ _ _ _ => rfl) (fun s callee args => ?_) t
  rw [decideCall_invoke]
  split <;> rfl

end Stmt

/-! ### Two nodes made of one -/

section

variable {α : Type}

/-- Two nodes are, as `f` sees them, what `g` and `g'` make of one for which `p` holds. -/
def Twins (f g g' : α → α) (p : α → Prop) (a a' : α) : Prop :=
  ∃ u, p u ∧ f a = g u ∧ f a' = g' u

variable {f g g' : α → α} {p : α → Prop}

/-- Lists of nodes that are made of one list. -/
abbrev TwinsAll (f g g' : α → α) (p : α → Prop) : List α → List α → Prop :=
  Twins (List.map f) (List.map g) (List.map g') fun us => ∀ u ∈ us, p u

theorem TwinsAll.nil : TwinsAll f g g' p [] [] :=
  ⟨[], nofun, rfl, rfl⟩

theorem TwinsAll.singleton {a a' : α} (h : Twins f g g' p a a') : TwinsAll f g g' p [a] [a'] := by
  obtain ⟨u, hu, made, made'⟩ := h
  exact ⟨[u], List.forall_mem_singleton.2 hu, congrArg (fun b => [b]) made,
    congrArg (fun b => [b]) made'⟩

theorem TwinsAll.append {as as' bs bs' : List α} (ha : TwinsAll f g g' p as as')
    (hb : TwinsAll f g g' p bs bs') : TwinsAll f g g' p (as ++ bs) (as' ++ bs') := by
  obtain ⟨us, hus, made, made'⟩ := ha
  obtain ⟨vs, hvs, others, others'⟩ := hb
  refine ⟨us ++ vs, List.forall_mem_append.2 ⟨hus, hvs⟩, ?_, ?_⟩
  · rw [List.map_append, made, others, List.map_append]
  · rw [List.map_append, made', others', List.map_append]

theorem TwinsAll.length_eq {as as' : List α} (h : TwinsAll f g g' p as as') :
    as.length = as'.length := by
  obtain ⟨us, -, made, made'⟩ := h
  rw [← List.length_map f, made, List.length_map, ← List.length_map g', ← made', List.length_map]

/-- A node that may be left out, and is left out both times or neither time. -/
theorem Twins.option {o o' : Option α} (h : Option.Rel (Twins f g g' p) o o') :
    Twins (Option.map f) (Option.map g) (Option.map g') (fun o => ∀ a ∈ o, p a) o o' := by
  cases h with
  | none => exact ⟨none, nofun, rfl, rfl⟩
  | some h =>
    obtain ⟨u, hu, made, made'⟩ := h
    refine ⟨some u, fun a mem => ?_, congrArg some made, congrArg some made'⟩
    cases mem
    exact hu

end

/-! ### Statements that differ in what is declared -/

section

variable (D D' : List String)

/-- Two statements are what two lists of declared names make of one. -/
abbrev Stmt.Differs : Stmt → Stmt → Prop :=
  Twins (mapCalls blurCall) (mapCalls (decideCall D)) (mapCalls (decideCall D')) Undecided

/-- Two lists of statements are what two lists of declared names make of one. -/
abbrev Stmt.DifferAll : List Stmt → List Stmt → Prop :=
  TwinsAll (mapCalls blurCall) (mapCalls (decideCall D)) (mapCalls (decideCall D')) Undecided

/-- Two branches are what two lists of declared names make of one. -/
abbrev IfBranch.Differs : IfBranch → IfBranch → Prop :=
  Twins (mapCalls Stmt.blurCall) (mapCalls (Stmt.decideCall D)) (mapCalls (Stmt.decideCall D'))
    fun b => ∀ t ∈ b.body, t.Undecided

/-- Two lists of branches are what two lists of declared names make of one. -/
abbrev IfBranch.DifferAll : List IfBranch → List IfBranch → Prop :=
  TwinsAll (mapCalls Stmt.blurCall) (mapCalls (Stmt.decideCall D)) (mapCalls (Stmt.decideCall D'))
    fun b => ∀ t ∈ b.body, t.Undecided

/-- Two branches are what two lists of declared names make of one. -/
abbrev CaseBranch.Differs : CaseBranch → CaseBranch → Prop :=
  Twins (mapCalls Stmt.blurCall) (mapCalls (Stmt.decideCall D)) (mapCalls (Stmt.decideCall D'))
    fun b => ∀ t ∈ b.body, t.Undecided

/-- Two lists of branches are what two lists of declared names make of one. -/
abbrev CaseBranch.DifferAll : List CaseBranch → List CaseBranch → Prop :=
  TwinsAll (mapCalls Stmt.blurCall) (mapCalls (Stmt.decideCall D)) (mapCalls (Stmt.decideCall D'))
    fun b => ∀ t ∈ b.body, t.Undecided

variable {D D'}

namespace Stmt.Differs

/-- A statement without calls and without bodies. -/
theorem leaf {t : Stmt} (kept : ∀ f, t.mapCalls f = t) (undecided : t.Undecided) :
    Differs D D' t t :=
  ⟨t, undecided, (kept _).trans (kept _).symm, (kept _).trans (kept _).symm⟩

/-- What holds of all statements in the bodies of a construct holds of the construct. -/
theorem undecided_of_bodies {t : Stmt} (own : t.NamesCallee)
    (each : ∀ ts ∈ t.bodies, ∀ u ∈ ts, u.Undecided) : t.Undecided := by
  refine undecided_iff.2 ⟨own, fun u mem => ?_⟩
  obtain ⟨ts, hts, hu⟩ := List.mem_flatten.1 mem
  exact each ts hts u hu

theorem ifThen {first first' : IfBranch} {elsifs elsifs' : List IfBranch}
    {otherwise otherwise' : Option (List Stmt)} (s : Span)
    (hfirst : IfBranch.Differs D D' first first')
    (helsifs : IfBranch.DifferAll D D' elsifs elsifs')
    (hotherwise : Option.Rel (DifferAll D D') otherwise otherwise') :
    Differs D D' (.ifThen s first elsifs otherwise) (.ifThen s first' elsifs' otherwise') := by
  obtain ⟨b, hb, made, made'⟩ := hfirst
  obtain ⟨bs, hbs, others, others'⟩ := helsifs
  obtain ⟨o, ho, last, last'⟩ := Twins.option hotherwise
  refine ⟨.ifThen s b bs o, undecided_of_bodies trivial fun ts mem => ?_, ?_, ?_⟩
  · obtain mem | mem := List.mem_append.1 mem
    · obtain rfl | mem := List.mem_cons.1 mem
      · exact hb
      · obtain ⟨b', among, rfl⟩ := List.mem_map.1 mem
        exact hbs b' among
    · exact ho ts (Option.mem_toList.1 mem)
  · rw [mapCalls_ifThen, made, others, last, mapCalls_ifThen]
  · rw [mapCalls_ifThen, made', others', last', mapCalls_ifThen]

theorem caseOf {branches branches' : List CaseBranch} {otherwise otherwise' : Option (List Stmt)}
    (s : Span) (selector : Expr) (hbranches : CaseBranch.DifferAll D D' branches branches')
    (hotherwise : Option.Rel (DifferAll D D') otherwise otherwise') :
    Differs D D' (.caseOf s selector branches otherwise)
      (.caseOf s selector branches' otherwise') := by
  obtain ⟨bs, hbs, made, made'⟩ := hbranches
  obtain ⟨o, ho, last, last'⟩ := Twins.option hotherwise
  refine ⟨.caseOf s selector bs o, undecided_of_bodies trivial fun ts mem => ?_, ?_, ?_⟩
  · obtain mem | mem := List.mem_append.1 mem
    · obtain ⟨b, among, rfl⟩ := List.mem_map.1 mem
      exact hbs b among
    · exact ho ts (Option.mem_toList.1 mem)
  · rw [mapCalls_caseOf, made, last, mapCalls_caseOf]
  · rw [mapCalls_caseOf, made', last', mapCalls_caseOf]

/-- A construct with one body. -/
theorem construct {body body' : List Stmt} (build : List Stmt → Stmt)
    (calls : ∀ f ts, (build ts).mapCalls f = build (ts.map (mapCalls f)))
    (own : ∀ ts, (build ts).NamesCallee) (bodies : ∀ ts, (build ts).bodies = [ts])
    (h : DifferAll D D' body body') : Differs D D' (build body) (build body') := by
  obtain ⟨ts, hts, made, made'⟩ := h
  refine ⟨build ts, undecided_of_bodies (own ts) fun us mem => ?_, ?_, ?_⟩
  · rw [bodies] at mem
    obtain rfl := List.mem_singleton.1 mem
    exact hts
  · rw [calls, calls, made]
  · rw [calls, calls, made']

theorem forLoop {body body' : List Stmt} (s : Span) (control : String) (start stop : Expr)
    (step : Option Expr) (h : DifferAll D D' body body') :
    Differs D D' (.forLoop s control start stop step body)
      (.forLoop s control start stop step body') :=
  construct (.forLoop s control start stop step)
    (mapCalls_forLoop · s control start stop step ·) (fun _ => trivial) (fun _ => rfl) h

theorem whileLoop {body body' : List Stmt} (s : Span) (condition : Expr)
    (h : DifferAll D D' body body') :
    Differs D D' (.whileLoop s condition body) (.whileLoop s condition body') :=
  construct (.whileLoop s condition)
    (mapCalls_whileLoop · s condition ·) (fun _ => trivial) (fun _ => rfl) h

theorem repeatLoop {body body' : List Stmt} (s : Span) (condition : Expr)
    (h : DifferAll D D' body body') :
    Differs D D' (.repeatLoop s body condition) (.repeatLoop s body' condition) :=
  construct (fun body => .repeatLoop s body condition)
    (mapCalls_repeatLoop · s condition ·) (fun _ => trivial) (fun _ => rfl) h

theorem region {body body' : List Stmt} (s : Span) (title : String)
    (h : DifferAll D D' body body') :
    Differs D D' (.region s title body) (.region s title body') :=
  construct (.region s title)
    (mapCalls_region · s title ·) (fun _ => trivial) (fun _ => rfl) h

end Stmt.Differs

theorem IfBranch.Differs.mk {body body' : List Stmt} (s : Span) (condition : Expr)
    (h : Stmt.DifferAll D D' body body') :
    Differs D D' (.mk s condition body) (.mk s condition body') := by
  obtain ⟨ts, hts, made, made'⟩ := h
  refine ⟨.mk s condition ts, hts, ?_, ?_⟩
  · rw [mapCalls_eq, mapCalls_eq]
    exact congrArg (IfBranch.mk s condition) made
  · rw [mapCalls_eq, mapCalls_eq]
    exact congrArg (IfBranch.mk s condition) made'

theorem CaseBranch.Differs.mk {body body' : List Stmt} (s : Span) (selectors : List CaseSelector)
    (h : Stmt.DifferAll D D' body body') :
    Differs D D' (.mk s selectors body) (.mk s selectors body') := by
  obtain ⟨ts, hts, made, made'⟩ := h
  refine ⟨.mk s selectors ts, hts, ?_, ?_⟩
  · rw [mapCalls_eq, mapCalls_eq]
    exact congrArg (CaseBranch.mk s selectors) made
  · rw [mapCalls_eq, mapCalls_eq]
    exact congrArg (CaseBranch.mk s selectors) made'

end

end Plc

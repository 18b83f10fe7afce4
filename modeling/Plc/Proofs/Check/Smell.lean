/-
Where smells are found.

Each smell stands where some node of the tree stands: a bare number at a literal or at the sign
before it, what is wrong with a condition at the condition, and all else at a statement or a branch.

* `Node.Throughout` — what holds of the places of a node and of all nodes below it;
* `Smell.mem_ofExpr` — what is found in an expression stands in it;
* `Smell.filter_eq_nil_of_isIn` — and it is not about where a statement stands;
* `Smell.stand_ofStmt`, `Smell.stand_ofBody` — so does what is found in a statement or a body.
-/
import Plc.Check.Smell
import Plc.Proofs.Nesting.Tree

namespace Plc

namespace Node

/-- The place of the node has the property, and so has that of every node below it, annotations
aside. -/
def Throughout (P : Span → Prop) (n : Node) : Prop :=
  ∀ k ∈ n.nodes, (∀ p, k ≠ .pragma p) → P k.span

variable {P : Span → Prop} {n k : Node}

theorem Throughout.here (h : n.Throughout P) (plain : ∀ p, n ≠ .pragma p) : P n.span :=
  h n n.mem_nodes_self plain

theorem Throughout.child (h : n.Throughout P) (mem : k ∈ n.children) : k.Throughout P :=
  fun j hj => h j (nodes_subset_of_mem_children mem hj)

end Node

/-! ### Findings about the position of a statement -/

namespace Diagnostic

/-- The finding is about where a statement stands: nothing comes there, or too much is around it. -/
def isPositional (d : Diagnostic) : Bool :=
  match d.finding with
  | .deadCode _ | .deepNesting _ _ => true
  | _ => false

/-- What is selected are findings about where statements stand. -/
class Positional (p : Diagnostic → Bool) : Prop where
  isPositional : ∀ d, p d = true → d.isPositional = true

end Diagnostic

/-! ### Findings at places -/

/-- The findings stand at places with the property. -/
def Stand (P : Span → Prop) (ds : List Diagnostic) : Prop :=
  ∀ d ∈ ds, P d.span

section

variable {P : Span → Prop} {d : Diagnostic} {ds es : List Diagnostic}

theorem stand_nil : Stand P [] :=
  List.forall_mem_nil _

theorem Stand.append (h : Stand P ds) (h' : Stand P es) : Stand P (ds ++ es) :=
  fun d hd => (List.mem_append.1 hd).elim (h d) (h' d)

/-- One finding that is made on some condition. -/
theorem stand_ite {p : Prop} [Decidable p] (here : P d.span) : Stand P (if p then [d] else []) := by
  split
  · intro e he
    obtain rfl := List.mem_singleton.1 he
    exact here
  · exact stand_nil

end

namespace Smell

variable {c : SmellConfig} {d : Diagnostic}

/-! ### Expressions -/

/-- The finding stands at a node from `n` on down, and it is not about where a statement stands. -/
structure IsIn (n : Node) (d : Diagnostic) : Prop where
  stands : ∃ k ∈ n.nodes, (∀ p, k ≠ .pragma p) ∧ k.span = d.span
  about : d.isPositional = false

theorem IsIn.ofExpr {e : Expr} (stands : e.span = d.span) (about : d.isPositional = false) :
    IsIn (.expr e) d :=
  ⟨⟨_, Node.mem_nodes_self _, nofun, stands⟩, about⟩

theorem IsIn.above {n k : Node} (h : IsIn k d) (mem : k ∈ n.children) : IsIn n d := by
  obtain ⟨⟨j, hj, plain, stands⟩, about⟩ := h
  exact ⟨⟨j, Node.nodes_subset_of_mem_children mem hj, plain, stands⟩, about⟩

theorem IsIn.throughout {P : Span → Prop} {n : Node} (h : IsIn n d) (all : n.Throughout P) :
    P d.span := by
  obtain ⟨⟨k, hk, plain, stands⟩, -⟩ := h
  exact stands ▸ all k hk plain

theorem mem_ofNumber {e : Expr} {typeName : Option String} {i : Int}
    (h : d ∈ ofNumber c e.span typeName i) : IsIn (.expr e) d := by
  unfold ofNumber at h
  split at h
  · exact absurd h List.not_mem_nil
  · obtain rfl := List.mem_singleton.1 h
    exact .ofExpr rfl rfl

theorem mem_ofLiteral {span : Span} {l : Literal} (h : d ∈ ofExpr c (.literal span l)) :
    IsIn (.expr (.literal span l)) d := by
  rw [ofExpr] at h
  split at h
  · exact mem_ofNumber h
  · exact absurd h List.not_mem_nil

/-- A sign changes which number is found at a literal, and else nothing. -/
theorem mem_ofUnary {span : Span} {op : UnaryOp} {x : Expr} (h : d ∈ ofExpr c (.unary span op x)) :
    d ∈ ofExpr c x ∨ IsIn (.expr (.unary span op x)) d := by
  rw [ofExpr.eq_def] at h
  dsimp only at h
  split at h
  · next l =>
    split at h
    · exact .inr (mem_ofNumber h)
    · exact .inl h
  · exact .inl h

mutual

theorem mem_ofVariable : ∀ v, d ∈ ofVariable c v → IsIn (.expr (.variable v)) d
  | .named .., h | .address .., h => absurd h List.not_mem_nil
  | .member _ base _, h => (mem_ofVariable base h).above List.mem_cons_self
  | .deref _ base, h => (mem_ofVariable base h).above List.mem_cons_self
  | .element _ base indices, h => by
    rcases List.mem_append.1 h with h | h
    · exact (mem_ofVariable base h).above List.mem_cons_self
    · obtain ⟨x, hx, number⟩ := mem_ofExprs indices h
      exact number.above (List.mem_cons_of_mem _ (List.mem_map_of_mem hx))

/-- What is found in an expression stands in it. -/
theorem mem_ofExpr : ∀ e, d ∈ ofExpr c e → IsIn (.expr e) d
  | .literal .., h => mem_ofLiteral h
  | .variable v, h => mem_ofVariable v h
  | .unary span op x, h => by
    rcases mem_ofUnary h with h | number
    · exact (mem_ofExpr x h).above List.mem_cons_self
    · exact number
  | .binary _ _ l r, h => by
    rcases List.mem_append.1 h with h | h
    · exact (mem_ofExpr l h).above List.mem_cons_self
    · exact (mem_ofExpr r h).above (List.mem_cons_of_mem _ List.mem_cons_self)
  | .paren _ x, h => (mem_ofExpr x h).above List.mem_cons_self
  | .call _ _ args, h => by
    obtain ⟨a, ha, number⟩ := mem_ofArgs args h
    exact number.above (List.mem_map_of_mem ha)
  | .repeated .., h | .arrayInit .., h | .structInit .., h => absurd h List.not_mem_nil

theorem mem_ofExprs : ∀ xs, d ∈ ofExprs c xs → ∃ x ∈ xs, IsIn (.expr x) d
  | [], h => absurd h List.not_mem_nil
  | x :: xs, h => by
    rcases List.mem_append.1 h with h | h
    · exact ⟨x, List.mem_cons_self, mem_ofExpr x h⟩
    · obtain ⟨y, hy, number⟩ := mem_ofExprs xs h
      exact ⟨y, List.mem_cons_of_mem _ hy, number⟩

theorem mem_ofArgs : ∀ as, d ∈ ofArgs c as → ∃ a ∈ as, IsIn (.arg a) d
  | [], h => absurd h List.not_mem_nil
  | .positional _ x :: as, h | .named _ _ x :: as, h => by
    rcases List.mem_append.1 h with h | h
    · exact ⟨_, List.mem_cons_self, (mem_ofExpr x h).above List.mem_cons_self⟩
    · obtain ⟨a, ha, number⟩ := mem_ofArgs as h
      exact ⟨a, List.mem_cons_of_mem _ ha, number⟩
  | .output _ _ v _ :: as, h => by
    rcases List.mem_append.1 h with h | h
    · exact ⟨_, List.mem_cons_self, (mem_ofVariable v h).above List.mem_cons_self⟩
    · obtain ⟨a, ha, number⟩ := mem_ofArgs as h
      exact ⟨a, List.mem_cons_of_mem _ ha, number⟩
  | .inferred _ :: as, h => by
    obtain ⟨a, ha, number⟩ := mem_ofArgs as h
    exact ⟨a, List.mem_cons_of_mem _ ha, number⟩

end

theorem mem_ofValue {e : Expr} (h : d ∈ ofValue c e) : IsIn (.expr e) d := by
  unfold ofValue at h
  split at h
  · exact mem_ofExpr e h
  · exact absurd h List.not_mem_nil

theorem mem_ofInputs {args : List Arg} (h : d ∈ ofInputs c args) : ∃ a ∈ args, IsIn (.arg a) d := by
  obtain ⟨a, ha, h⟩ := List.mem_flatMap.1 h
  refine ⟨a, ha, ?_⟩
  cases a with
  | positional _ x | named _ _ x => exact (mem_ofValue h).above List.mem_cons_self
  | output | inferred => exact absurd h List.not_mem_nil

theorem mem_ofCondition {e : Expr} (h : d ∈ ofCondition c e) : IsIn (.expr e) d := by
  unfold ofCondition at h
  rcases List.mem_append.1 h with h | h
  · rcases List.mem_append.1 h with h | h
    · split at h
      · obtain rfl := List.mem_singleton.1 h
        exact .ofExpr rfl rfl
      · exact absurd h List.not_mem_nil
    · split at h
      · obtain rfl := List.mem_singleton.1 h
        exact .ofExpr rfl rfl
      · exact absurd h List.not_mem_nil
  · exact mem_ofValue h

theorem mem_ofConditions : ∀ (es : List Expr) (seen : List String), d ∈ ofConditions c seen es →
    ∃ e ∈ es, IsIn (.expr e) d
  | [], _, h => absurd h List.not_mem_nil
  | e :: es, seen, h => by
    rw [ofConditions] at h
    rcases List.mem_append.1 h with h | h
    · refine ⟨e, List.mem_cons_self, ?_⟩
      rcases List.mem_append.1 h with h | h
      · exact mem_ofCondition h
      · split at h
        · obtain rfl := List.mem_singleton.1 h
          exact .ofExpr rfl rfl
        · exact absurd h List.not_mem_nil
    · obtain ⟨x, hx, h⟩ := mem_ofConditions es _ h
      exact ⟨x, List.mem_cons_of_mem _ hx, h⟩

section

variable {p : Diagnostic → Bool} [Diagnostic.Positional p] {ds : List Diagnostic}

/-- No finding in an expression is about where a statement stands. -/
theorem filter_eq_nil_of_isIn (h : ∀ d ∈ ds, ∃ n, IsIn n d) : ds.filter p = [] := by
  refine List.filter_eq_nil_iff.2 fun d hd selected => ?_
  obtain ⟨n, found⟩ := h d hd
  have positional := Diagnostic.Positional.isPositional d selected
  rw [found.about] at positional
  exact Bool.false_ne_true positional

@[simp] theorem filter_ofValue (e : Expr) : (ofValue c e).filter p = [] :=
  filter_eq_nil_of_isIn fun _ h => ⟨_, mem_ofValue h⟩

@[simp] theorem filter_ofInputs (args : List Arg) : (ofInputs c args).filter p = [] :=
  filter_eq_nil_of_isIn fun _ h => let ⟨_, _, found⟩ := mem_ofInputs h; ⟨_, found⟩

@[simp] theorem filter_ofCondition (e : Expr) : (ofCondition c e).filter p = [] :=
  filter_eq_nil_of_isIn fun _ h => ⟨_, mem_ofCondition h⟩

@[simp] theorem filter_ofConditions (seen : List String) (es : List Expr) :
    (ofConditions c seen es).filter p = [] :=
  filter_eq_nil_of_isIn fun _ h => let ⟨_, _, found⟩ := mem_ofConditions es seen h; ⟨_, found⟩

/-- A finding of another kind, made on some condition. -/
theorem filter_ite {q : Prop} [Decidable q] (h : d.isPositional = false) :
    (if q then [d] else []).filter p = [] := by
  have other : p d = false := Bool.eq_false_iff.2 fun selected =>
    Bool.false_ne_true (h.symm.trans (Diagnostic.Positional.isPositional d selected))
  split
  · simp [other]
  · rfl

@[simp] theorem filter_ofEmpty (severity : Severity) (block : String) (span : Span)
    (body : List Stmt) : (ofEmpty severity block span body).filter p = [] :=
  filter_ite rfl

theorem filter_ofLength (place : Option Span) (body : List Stmt) :
    (ofLength c place body).filter p = [] := by
  cases place with
  | none => rfl
  | some span => exact filter_ite rfl

end

/-! ### Statements -/

section

variable {P : Span → Prop}

theorem stand_ofValue {e : Expr} (all : (Node.expr e).Throughout P) : Stand P (ofValue c e) :=
  fun _ h => (mem_ofValue h).throughout all

theorem stand_ofCondition {e : Expr} (all : (Node.expr e).Throughout P) :
    Stand P (ofCondition c e) :=
  fun _ h => (mem_ofCondition h).throughout all

theorem stand_ofInputs {args : List Arg} (all : ∀ a ∈ args, (Node.arg a).Throughout P) :
    Stand P (ofInputs c args) := by
  intro d h
  obtain ⟨a, ha, stands⟩ := mem_ofInputs h
  exact stands.throughout (all a ha)

theorem stand_ofConditions {es : List Expr} {seen : List String}
    (all : ∀ e ∈ es, (Node.expr e).Throughout P) : Stand P (ofConditions c seen es) := by
  intro d h
  obtain ⟨e, he, stands⟩ := mem_ofConditions es seen h
  exact stands.throughout (all e he)

theorem stand_ofDepth {span : Span} {depth : Nat} (here : P span) : Stand P (ofDepth c depth span) :=
  stand_ite here

theorem stand_ofEmpty {severity : Severity} {block : String} {span : Span} {body : List Stmt}
    (here : P span) : Stand P (ofEmpty severity block span body) :=
  stand_ite here

theorem stand_smells {b : Before} {s : Stmt} (here : P s.span) : Stand P (b.smells c s) :=
  (stand_ite here).append (stand_ite here)

/-- The conditions of a statement with branches. -/
theorem throughout_conditions {span place : Span} {condition : Expr} {body : List Stmt}
    {elsifs : List IfBranch} {otherwise : Option (List Stmt)}
    (all : (Node.stmt (.ifThen span (.mk place condition body) elsifs otherwise)).Throughout P) :
    ∀ e ∈ condition :: elsifs.map IfBranch.condition, (Node.expr e).Throughout P := by
  intro e he
  rcases List.mem_cons.1 he with rfl | he
  · exact (all.child List.mem_cons_self).child List.mem_cons_self
  · obtain ⟨b, hb, rfl⟩ := List.mem_map.1 he
    obtain ⟨_, x, _⟩ := b
    have branch : Node.ifBranch (.mk _ x _) ∈ Node.children
        (.stmt (.ifThen span (.mk place condition body) elsifs otherwise)) :=
      List.mem_append_left _ (List.mem_cons_of_mem _ (List.mem_map_of_mem hb))
    exact (all.child branch).child List.mem_cons_self

mutual

/-- The smells of a statement stand in it. -/
theorem stand_ofStmt (depth : Nat) : ∀ s, (Node.stmt s).Throughout P → Stand P (ofStmt c depth s)
  | .assignment _ _ _ value, all => by
    rw [ofStmt]
    exact stand_ofValue (all.child (List.mem_cons_of_mem _ List.mem_cons_self))
  | .ifThen span (.mk place condition body) elsifs otherwise, all => by
    have here : P span := all.here nofun
    have first := all.child (k := .ifBranch (.mk place condition body)) List.mem_cons_self
    have inner : Stand P (ofList c (depth + 1) {} body) := stand_ofList _ _ body fun s hs =>
      first.child (List.mem_cons_of_mem _ (List.mem_map_of_mem hs))
    have others : Stand P (ofElsifs c (depth + 1) elsifs) := stand_ofElsifs _ elsifs fun b hb =>
      all.child (List.mem_append_left _ (List.mem_cons_of_mem _ (List.mem_map_of_mem hb)))
    -- the last part, which may be missing, adds its smells to these
    have known : Stand P (ofConditions c [] (condition :: elsifs.map IfBranch.condition) ++
        ofEmpty .warning "IF" span body ++ ofDepth c (depth + 1) span ++
        ofList c (depth + 1) {} body ++ ofElsifs c (depth + 1) elsifs) :=
      ((((stand_ofConditions (throughout_conditions all)).append (stand_ofEmpty here)).append
        (stand_ofDepth here)).append inner).append others
    cases otherwise with
    | none =>
      rw [ofStmt]
      exact known.append stand_nil
    | some ss =>
      rw [ofStmt]
      exact known.append ((stand_ofEmpty here).append (stand_ofList _ _ ss fun s hs =>
        all.child (List.mem_append_right _ (List.mem_map_of_mem hs))))
  | .caseOf span x branches otherwise, all => by
    have here : P span := all.here nofun
    have known : Stand P (ofDepth c (depth + 1) span ++ ofBranches c (depth + 1) branches) :=
      (stand_ofDepth here).append (stand_ofBranches _ branches fun b hb =>
        all.child (List.mem_append_left _ (List.mem_cons_of_mem _ (List.mem_map_of_mem hb))))
    cases otherwise with
    | none =>
      rw [ofStmt]
      exact known.append (stand_ite here)
    | some ss =>
      rw [ofStmt]
      exact known.append (stand_ofList _ _ ss fun s hs =>
        all.child (List.mem_append_right _ (List.mem_map_of_mem hs)))
  | .forLoop span _ _ _ _ body, all => by
    have here : P span := all.here nofun
    rw [ofStmt]
    exact ((stand_ofDepth here).append (stand_ofEmpty here)).append
      (stand_ofList _ _ body fun s hs => all.child (List.mem_append_right _ (List.mem_map_of_mem hs)))
  | .whileLoop span condition body, all => by
    have here : P span := all.here nofun
    have test : Stand P (ofCondition c condition) := stand_ofCondition (all.child List.mem_cons_self)
    rw [ofStmt]
    exact ((test.append (stand_ofDepth here)).append (stand_ofEmpty here)).append
      (stand_ofList _ _ body fun s hs => all.child (List.mem_cons_of_mem _ (List.mem_map_of_mem hs)))
  | .repeatLoop span body condition, all => by
    have here : P span := all.here nofun
    have test : Stand P (ofCondition c condition) :=
      stand_ofCondition (all.child (List.mem_append_right (body.map Node.stmt) List.mem_cons_self))
    rw [ofStmt]
    exact ((test.append (stand_ofDepth here)).append (stand_ofEmpty here)).append
      (stand_ofList _ _ body fun s hs => all.child (List.mem_append_left _ (List.mem_map_of_mem hs)))
  | .region _ _ body, all => by
    rw [ofStmt]
    exact stand_ofList _ _ body fun s hs => all.child (List.mem_map_of_mem hs)
  | .call _ _ _ args, all => by
    rw [ofStmt]
    have call := all.child List.mem_cons_self
    exact stand_ofInputs fun a ha => call.child (List.mem_map_of_mem ha)
  | .invoke _ _ args, all => by
    rw [ofStmt]
    exact stand_ofInputs fun a ha => all.child (List.mem_cons_of_mem _ (List.mem_map_of_mem ha))
  | .exitLoop _, _ | .nextPass _, _ | .leave _ _, _ | .empty _, _ | .goto _ _, _ | .label _ _, _ =>
    stand_nil

theorem stand_ofList (depth : Nat) (b : Before) : ∀ ss : List Stmt,
    (∀ s ∈ ss, (Node.stmt s).Throughout P) → Stand P (ofList c depth b ss)
  | [], _ => stand_nil
  | s :: ss, all => by
    rw [ofList]
    have first := all s List.mem_cons_self
    exact ((stand_smells (first.here nofun)).append (stand_ofStmt depth s first)).append
      (stand_ofList depth _ ss fun t ht => all t (List.mem_cons_of_mem _ ht))

theorem stand_ofElsifs (depth : Nat) : ∀ bs : List IfBranch,
    (∀ b ∈ bs, (Node.ifBranch b).Throughout P) → Stand P (ofElsifs c depth bs)
  | [], _ => stand_nil
  | .mk _ _ body :: bs, all => by
    rw [ofElsifs]
    exact (stand_ofList depth _ body fun s hs => (all _ List.mem_cons_self).child
      (List.mem_cons_of_mem _ (List.mem_map_of_mem hs))).append
        (stand_ofElsifs depth bs fun b hb => all b (List.mem_cons_of_mem _ hb))

theorem stand_ofBranches (depth : Nat) : ∀ bs : List CaseBranch,
    (∀ b ∈ bs, (Node.caseBranch b).Throughout P) → Stand P (ofBranches c depth bs)
  | [], _ => stand_nil
  | .mk _ _ body :: bs, all => by
    rw [ofBranches]
    have first := all _ List.mem_cons_self
    exact ((stand_ite (first.here nofun)).append (stand_ofList depth _ body fun s hs =>
      first.child (List.mem_append_right _ (List.mem_map_of_mem hs)))).append
        (stand_ofBranches depth bs fun b hb => all b (List.mem_cons_of_mem _ hb))

end

/-- The smells of a body, with its length, which stands at the place of the body. -/
theorem stand_ofBody {place : Span} {body : List Stmt} (here : P place)
    (all : ∀ s ∈ body, (Node.stmt s).Throughout P) : Stand P (ofBody c (some place) body) := by
  rw [ofBody_eq]
  exact (stand_ite here).append (stand_ofList _ _ body all)

end

end Smell

end Plc

/-
Ways down a tree, and how many levels they have.

A chain of operators that group to the left, such as `a + b + c`, and a chain of accesses, such as
`a.b[i].c`, are read by loops, which put what they have read so far inside of each new node.  On the
way from such a node to what stood there before, no construct is opened; every other step from a
node to a part of it goes down one level.

* `Node.left?`, `Node.others` — the part that a loop had read before, and the other parts;
* `Node.Way` — the nodes on a way down, and the number of levels among them;
* `Node.ways` — all ways of at most a given number of nodes;
* `Node.Shallow` — no way down from a node has more levels than given.
-/
import Mathlib.Data.List.Chain
import Plc.Tree.Node

namespace Plc

namespace Node

/-! ### Ways -/

/-- The part that a loop had read before it built the node: a left operand, or a variable that is
accessed. -/
def left? : Node → Option Node
  | expr (.binary _ _ l _) => some (expr l)
  | expr (.variable (.member _ b _)) | expr (.variable (.element _ b _))
  | expr (.variable (.deref _ b)) => some (expr (.variable b))
  | _ => none

/-- The other parts of the node. -/
def others (n : Node) : List Node :=
  n.children.drop n.left?.toList.length

theorem children_eq (n : Node) : n.children = n.left?.toList ++ n.others := by
  cases n with
  | expr e =>
    cases e with
    | «variable» v => cases v <;> rfl
    | _ => rfl
  | _ => rfl

theorem mem_children {n m : Node} : m ∈ n.children ↔ m ∈ n.left? ∨ m ∈ n.others := by
  rw [children_eq, List.mem_append, Option.mem_toList, Option.mem_def]

/-- Nodes on the way from a node to one below it, and how many of them are not the left part of the
one before. -/
inductive Way : Node → List Node → Nat → Prop
  | stop (n : Node) : Way n [n] 1
  | left {n m : Node} {ns : List Node} {k : Nat} (part : m ∈ n.left?) (below : Way m ns k) :
    Way n (n :: ns) k
  | down {n m : Node} {ns : List Node} {k : Nat} (part : m ∈ n.others) (below : Way m ns k) :
    Way n (n :: ns) (k + 1)

namespace Way

variable {n : Node} {ns : List Node} {k : Nat}

/-- Every node on a way is a part of the one before. -/
theorem isChain (h : Way n ns k) : ns.IsChain fun n m => m ∈ n.children := by
  have step {n m : Node} {ns : List Node} {k : Nat} (part : m ∈ n.children) (below : Way m ns k)
      (rest : ns.IsChain fun n m => m ∈ n.children) :
      (n :: ns).IsChain fun n m => m ∈ n.children := by
    cases below with
    | stop => exact .cons_cons part rest
    | left _ _ => exact .cons_cons part rest
    | down _ _ => exact .cons_cons part rest
  induction h with
  | stop n => exact .singleton n
  | left part below ih => exact step (mem_children.2 (.inl part)) below ih
  | down part below ih => exact step (mem_children.2 (.inr part)) below ih

theorem head? (h : Way n ns k) : ns.head? = some n := by
  cases h with
  | stop | left _ _ | down _ _ => rfl

/-- The nodes on a way are some of the nodes of the tree. -/
theorem length_le (h : Way n ns k) : ns.length ≤ n.nodes.length := by
  have step {n m : Node} {ns : List Node} (part : m ∈ n.children)
      (fewer : ns.length ≤ m.nodes.length) : (n :: ns).length ≤ n.nodes.length := by
    obtain ⟨before, after, same⟩ := List.append_of_mem part
    rw [nodes_eq, same, List.flatMap_append, List.flatMap_cons]
    simp only [List.length_cons, List.length_append]
    omega
  induction h with
  | stop n =>
    rw [nodes_eq]
    exact Nat.succ_le_succ (Nat.zero_le _)
  | left part below ih => exact step (mem_children.2 (.inl part)) ih
  | down part below ih => exact step (mem_children.2 (.inr part)) ih

end Way

/-- The ways down from a node that have at most so many nodes. -/
def ways : Nat → Node → List (List Node × Nat)
  | 0, _ => []
  | nodes + 1, n => ([n], 1) ::
      ((n.left?.toList.flatMap (ways nodes)).map fun w => (n :: w.1, w.2)) ++
      (n.others.flatMap (ways nodes)).map fun w => (n :: w.1, w.2 + 1)

theorem mem_ways_iff {nodes : Nat} {n : Node} {ns : List Node} {k : Nat} :
    (ns, k) ∈ ways nodes n ↔ Way n ns k ∧ ns.length ≤ nodes := by
  -- Induction on the number of nodes; a way stops, goes on to the left, or goes down.
  induction nodes generalizing n ns k with
  | zero =>
    refine ⟨nofun, ?_⟩
    rintro ⟨way, few⟩
    have first := way.head?
    rw [List.length_eq_zero_iff.1 (Nat.le_zero.1 few)] at first
    cases first
  | succ nodes ih =>
    simp only [ways, List.cons_append, List.mem_cons, List.mem_append, List.mem_map,
      List.mem_flatMap, Option.mem_toList]
    constructor
    · rintro (same | ⟨⟨ns, k⟩, ⟨m, part, below⟩, same⟩ | ⟨⟨ns, k⟩, ⟨m, part, below⟩, same⟩)
      · cases same
        exact ⟨.stop n, Nat.succ_le_succ (Nat.zero_le _)⟩
      · cases same
        exact ⟨.left part (ih.1 below).1, Nat.succ_le_succ (ih.1 below).2⟩
      · cases same
        exact ⟨.down part (ih.1 below).1, Nat.succ_le_succ (ih.1 below).2⟩
    · rintro ⟨way, few⟩
      cases way with
      | stop => exact .inl rfl
      | left part below =>
        exact .inr (.inl ⟨_, ⟨_, part, ih.2 ⟨below, Nat.le_of_succ_le_succ few⟩⟩, rfl⟩)
      | down part below =>
        exact .inr (.inr ⟨_, ⟨_, part, ih.2 ⟨below, Nat.le_of_succ_le_succ few⟩⟩, rfl⟩)

/-! ### Shallow trees -/

/-- No way down from the node has more than so many levels. -/
def Shallow (k : Nat) (n : Node) : Prop :=
  ∀ ns j, Way n ns j → j ≤ k

namespace Shallow

variable {k : Nat} {n : Node}

/-- A node is a level of its own. -/
theorem pos (h : Shallow k n) : 0 < k := h [n] 1 (.stop n)

theorem mono {k' : Nat} (h : Shallow k n) (le : k ≤ k') : Shallow k' n :=
  fun ns j way => Nat.le_trans (h ns j way) le

/-- The left part is on the level of the node, and the others are on the next. -/
theorem succ_iff : Shallow (k + 1) n ↔
    (∀ m ∈ n.left?, Shallow (k + 1) m) ∧ ∀ m ∈ n.others, Shallow k m := by
  constructor
  · intro h
    refine ⟨fun m part ns j way => h _ j (.left part way), fun m part ns j way => ?_⟩
    exact Nat.le_of_succ_le_succ (h _ (j + 1) (.down part way))
  · rintro ⟨left, others⟩ ns j way
    cases way with
    | stop => exact Nat.succ_le_succ (Nat.zero_le k)
    | left part below => exact left _ part _ _ below
    | down part below => exact Nat.succ_le_succ (others _ part _ _ below)

/-- A node that no loop builds. -/
theorem of_children (single : n.left? = none) (h : ∀ m ∈ n.children, Shallow k m) :
    Shallow (k + 1) n := by
  refine succ_iff.2 ⟨?_, ?_⟩
  · rw [single]
    rintro _ ⟨⟩
  · rw [others, single]
    exact h

/-- A node without parts. -/
theorem leaf (none : n.children = []) : Shallow (k + 1) n := by
  have split := children_eq n
  rw [none] at split
  obtain ⟨single, -⟩ := List.append_eq_nil_iff.1 split.symm
  refine of_children (Option.toList_eq_nil_iff.1 single) ?_
  rw [none]
  exact List.forall_mem_nil _

theorem binary {s : Span} {op : BinaryOp} {l r : Expr} (hl : Shallow (k + 1) (expr l))
    (hr : Shallow k (expr r)) : Shallow (k + 1) (expr (.binary s op l r)) :=
  succ_iff.2 ⟨fun _ part => Option.mem_some.1 part ▸ hl, List.forall_mem_singleton.2 hr⟩

theorem member {s : Span} {v : Variable} {name : String}
    (h : Shallow (k + 1) (expr (.variable v))) :
    Shallow (k + 1) (expr (.variable (.member s v name))) :=
  succ_iff.2 ⟨fun _ part => Option.mem_some.1 part ▸ h, List.forall_mem_nil _⟩

theorem deref {s : Span} {v : Variable} (h : Shallow (k + 1) (expr (.variable v))) :
    Shallow (k + 1) (expr (.variable (.deref s v))) :=
  succ_iff.2 ⟨fun _ part => Option.mem_some.1 part ▸ h, List.forall_mem_nil _⟩

theorem element {s : Span} {v : Variable} {indices : List Expr}
    (h : Shallow (k + 1) (expr (.variable v))) (hi : ∀ x ∈ indices, Shallow k (expr x)) :
    Shallow (k + 1) (expr (.variable (.element s v indices))) :=
  succ_iff.2 ⟨fun _ part => Option.mem_some.1 part ▸ h, List.forall_mem_map.2 hi⟩

/-- The place of an expression does not matter. -/
theorem withSpan {e : Expr} (s : Span) (h : Shallow k (expr e)) :
    Shallow k (expr (e.withSpan s)) := by
  have left : (expr (e.withSpan s)).left? = (expr e).left? := by
    cases e with
    | «variable» v => cases v <;> rfl
    | _ => rfl
  have others : (expr (e.withSpan s)).others = (expr e).others := by
    cases e with
    | «variable» v => cases v <;> rfl
    | _ => rfl
  obtain ⟨k, rfl⟩ := Nat.exists_eq_add_of_le' h.pos
  rw [succ_iff, left, others]
  exact succ_iff.1 h

end Shallow

end Node

end Plc

/-
Trees whose spans nest.

A node of a tree lies inside the text, it covers the nodes directly below it, and those stand one
after another in the order of its fields.

* `Node.IsPlaced` — what is asked of one node;
* `Row` — nodes side by side between two offsets, with all the nodes below them placed;
* `Row.append`, `Row.above`, `Row.widen` — rows side by side, a node above a row, and a node whose
  span grows afterwards;
* `Row.walk` — a walk over a row comes to the nodes in the order of the text.
-/
import Plc.Tree.Node

namespace Plc

/-- The first span ends where the second begins or before, and begins before it. -/
def Span.IsBefore (a b : Span) : Prop := a.stop ≤ b.start ∧ a.start < b.start

namespace Node

/-- The node is the empty place of an argument, which holds no character. -/
def isGap : Node → Bool
  | .arg (.inferred _) => true
  | _ => false

/-- The node lies inside a text of the given size and holds a character, unless it is an empty
place; it covers its children, which stand one after another. -/
structure IsPlaced (size : Nat) (n : Node) : Prop where
  inside : n.span.stop ≤ size
  goes : n.isGap = false → n.span.start < n.span.stop
  covers : ∀ m ∈ n.children, n.span.contains m.span = true
  inOrder : n.children.Pairwise fun a b => a.span.IsBefore b.span

variable {size : Nat}

theorem mem_nodes_self (n : Node) : n ∈ n.nodes := by
  rw [nodes_eq]
  exact List.mem_cons_self

theorem nodes_subset_of_mem_children {m n : Node} (h : m ∈ n.children) : m.nodes ⊆ n.nodes := by
  intro k hk
  rw [nodes_eq n]
  exact List.mem_cons_of_mem _ (List.mem_flatMap.2 ⟨m, h, hk⟩)

theorem length_nodes_lt_of_mem_children {m n : Node} (h : m ∈ n.children) :
    m.nodes.length < n.nodes.length := by
  obtain ⟨front, back, parts⟩ := List.append_of_mem h
  rw [nodes_eq n, parts, List.length_cons, List.flatMap_append, List.flatMap_cons]
  simp only [List.length_append]
  omega

/-- Every node below a node is covered by it. -/
theorem contains_of_mem_nodes {n m : Node} (placed : ∀ k ∈ n.nodes, k.IsPlaced size)
    (hm : m ∈ n.nodes) : n.span.contains m.span = true := by
  -- on the number of nodes, since a node is no structural part of the list of its parent's children
  induction k : n.nodes.length using Nat.strongRecOn generalizing n with
  | ind k ih =>
    rw [nodes_eq, List.mem_cons] at hm
    rcases hm with rfl | below
    · exact Span.contains_iff.2 ⟨Nat.le_refl _, Nat.le_refl _⟩
    · obtain ⟨child, mem, hm⟩ := List.mem_flatMap.1 below
      have smaller := length_nodes_lt_of_mem_children mem
      have inner := ih _ (k ▸ smaller)
        (fun j hj => placed j (nodes_subset_of_mem_children mem hj)) hm rfl
      exact Span.contains_trans ((placed n (mem_nodes_self n)).covers child mem) inner

/-- Nodes one after another are walked over in the order of the text if each of them is. -/
theorem pairwise_walks {ns : List Node} (placed : ∀ n ∈ ns, ∀ m ∈ n.nodes, m.IsPlaced size)
    (inOrder : ns.Pairwise fun a b => a.span.IsBefore b.span)
    (each : ∀ n ∈ ns, n.nodes.Pairwise fun a b => a.span.start ≤ b.span.start) :
    (ns.flatMap nodes).Pairwise fun a b => a.span.start ≤ b.span.start := by
  refine List.pairwise_flatMap.2 ⟨each, inOrder.imp_of_mem ?_⟩
  intro a b ha hb before m hm m' hm'
  have left := Span.contains_iff.1 (contains_of_mem_nodes (placed a ha) hm)
  have right := Span.contains_iff.1 (contains_of_mem_nodes (placed b hb) hm')
  have := m.span.ordered
  have := before.1
  omega

/-- A walk comes to the nodes below a node in the order of the text. -/
theorem pairwise_nodes {n : Node} (placed : ∀ k ∈ n.nodes, k.IsPlaced size) :
    n.nodes.Pairwise fun a b => a.span.start ≤ b.span.start := by
  induction k : n.nodes.length using Nat.strongRecOn generalizing n with
  | ind k ih =>
    have below (m : Node) (hm : m ∈ n.children) : ∀ j ∈ m.nodes, j.IsPlaced size :=
      fun j hj => placed j (nodes_subset_of_mem_children hm hj)
    have here := placed n (mem_nodes_self n)
    have rest := pairwise_walks below here.inOrder fun m hm =>
      ih _ (k ▸ length_nodes_lt_of_mem_children hm) (below m hm) rfl
    rw [nodes_eq]
    refine List.pairwise_cons.2 ⟨fun m hm => ?_, rest⟩
    have inner : m ∈ n.nodes := by
      rw [nodes_eq]
      exact List.mem_cons_of_mem _ hm
    exact (Span.contains_iff.1 (contains_of_mem_nodes placed inner)).1

end Node

/-! ### Rows -/

/-- Nodes side by side: they begin at `lo` or later and before `hi`, they end at `hi` or before, and
every node below them is placed. -/
structure Row (size lo hi : Nat) (ns : List Node) : Prop where
  placed : ∀ n ∈ ns, ∀ m ∈ n.nodes, m.IsPlaced size
  within : ∀ n ∈ ns, lo ≤ n.span.start ∧ n.span.start < hi ∧ n.span.stop ≤ hi
  inOrder : ns.Pairwise fun a b => a.span.IsBefore b.span

namespace Row

variable {size lo lo' mid hi hi' : Nat} {n k : Node} {ns ms : List Node}

theorem nil (size lo hi : Nat) : Row size lo hi [] :=
  ⟨by simp, by simp, List.Pairwise.nil⟩

theorem mono (h : Row size lo hi ns) (le : hi ≤ hi') : Row size lo hi' ns := by
  refine ⟨h.placed, fun n hn => ?_, h.inOrder⟩
  have := h.within n hn
  omega

theorem sublist (h : Row size lo hi ns) (sub : ms.Sublist ns) : Row size lo hi ms :=
  ⟨fun n hn => h.placed n (sub.subset hn), fun n hn => h.within n (sub.subset hn),
    h.inOrder.sublist sub⟩

/-- Two rows, the second after the first. -/
theorem append (h : Row size lo mid ns) (h' : Row size lo' hi ms) (first : lo ≤ lo')
    (between : mid ≤ lo') (last : mid ≤ hi) : Row size lo hi (ns ++ ms) where
  placed n hn := by
    rcases List.mem_append.1 hn with hn | hn
    · exact h.placed n hn
    · exact h'.placed n hn
  within n hn := by
    rcases List.mem_append.1 hn with hn | hn
    · have := h.within n hn
      omega
    · have := h'.within n hn
      omega
  inOrder := by
    refine List.pairwise_append.2 ⟨h.inOrder, h'.inOrder, fun a ha b hb => ?_⟩
    have left := h.within a ha
    have right := h'.within b hb
    constructor
    · omega
    · omega

/-- A node above some nodes of a row, from where they begin or earlier to the end of the row. -/
theorem above (h : Row size lo hi ns) (below : n.children.Sublist ns) (first : lo ≤ n.span.start)
    (covers : ∀ m ∈ n.children, n.span.start ≤ m.span.start) (last : n.span.stop = hi)
    (goes : n.span.start < hi) (inside : hi ≤ size) : Row size lo hi [n] := by
  have kids := h.sublist below
  have top : n.IsPlaced size := by
    refine ⟨last ▸ inside, fun _ => last ▸ goes, fun m hm => ?_, kids.inOrder⟩
    have := (kids.within m hm).2.2
    exact Span.contains_iff.2 ⟨covers m hm, by omega⟩
  refine ⟨fun n' hn' m hm => ?_, fun n' hn' => ?_, List.pairwise_singleton _ _⟩
  · rw [List.mem_singleton.1 hn', Node.nodes_eq, List.mem_cons] at hm
    rcases hm with rfl | hm
    · exact top
    · obtain ⟨child, mem, hm⟩ := List.mem_flatMap.1 hm
      exact kids.placed child mem m hm
  · rw [List.mem_singleton.1 hn']
    omega

/-- A node whose span grows, while its children stay. -/
theorem widen (h : Row size lo hi [k]) (children : n.children = k.children)
    (covers : n.span.contains k.span = true) (first : lo ≤ n.span.start) (goes : k.isGap = false)
    (last : n.span.stop ≤ hi) (inside : hi ≤ size) : Row size lo hi [n] := by
  have old := h.placed k List.mem_cons_self k (Node.mem_nodes_self k)
  have wide := Span.contains_iff.1 covers
  have some := old.goes goes
  have top : n.IsPlaced size := by
    refine ⟨Nat.le_trans last inside, fun _ => by omega, fun m hm => ?_, children ▸ old.inOrder⟩
    exact Span.contains_trans covers (old.covers m (children ▸ hm))
  refine ⟨fun n' hn' m hm => ?_, fun n' hn' => ?_, List.pairwise_singleton _ _⟩
  · rw [List.mem_singleton.1 hn', Node.nodes_eq, List.mem_cons, children] at hm
    rcases hm with rfl | hm
    · exact top
    · refine h.placed k List.mem_cons_self m ?_
      rw [Node.nodes_eq]
      exact List.mem_cons_of_mem _ hm
  · rw [List.mem_singleton.1 hn']
    omega

/-- A walk over a row comes to the nodes in the order of the text. -/
theorem walk (h : Row size lo hi ns) :
    (ns.flatMap Node.nodes).Pairwise fun a b => a.span.start ≤ b.span.start :=
  Node.pairwise_walks h.placed h.inOrder fun n hn => Node.pairwise_nodes (h.placed n hn)

end Row

end Plc

/-
Sums over the values under keys.

* `Keyed.weight_put` — a sum over the values counts the new value for the old one;
* `Keyed.weight_tally` — every key of a list is counted once.
-/
import Mathlib.Algebra.GroupWithZero.Nat
import Mathlib.Data.List.Induction
import Plc.Keyed

namespace Plc

namespace Keyed

variable {α : Type}

/-- What the values count together. -/
def weight (count : α → Nat) (k : Keyed α) : Nat :=
  (k.map fun e => count e.2).sum

/-- With a value under one of its keys replaced, a list counts the new value for the old one. -/
theorem weight_replaced (count : α → Nat) {k : Keyed α} (nodup : k.keys.Nodup) {key : String}
    (h : key ∈ k.keys) (value : α) :
    weight count (k.map fun e => if e.1 == key then (key, value) else e) +
      ((k.lookup key).map count).getD 0 = k.weight count + count value := by
  induction k with
  | nil => exact absurd h List.not_mem_nil
  | cons e k ih =>
    simp only [keys, List.map_cons, List.nodup_cons] at nodup
    simp only [weight, List.map_cons, List.sum_cons] at ih ⊢
    by_cases same : e.1 = key
    · -- the key does not come again
      have rest : (k.map fun e => if e.1 == key then (key, value) else e) = k := by
        refine (List.map_congr_left fun e' he' => if_neg ?_).trans (List.map_id' k)
        rintro eq
        exact nodup.1 (same ▸ beq_iff_eq.1 eq ▸ List.mem_map_of_mem he')
      rw [rest, List.lookup_cons, same, beq_self_eq_true]
      simp only [if_true, Option.map_some, Option.getD_some]
      omega
    · have there : key ∈ keys k := by
        obtain eq | there := List.mem_cons.1 h
        · exact absurd eq.symm same
        · exact there
      have := ih nodup.2 there
      rw [List.lookup_cons, beq_false_of_ne (Ne.symm same), beq_false_of_ne same]
      simp only [Bool.false_eq_true, if_false]
      omega

theorem weight_put (count : α → Nat) {k : Keyed α} (nodup : k.keys.Nodup) (key : String)
    (value : α) :
    (k.put key value).weight count + ((k.lookup key).map count).getD 0 =
      k.weight count + count value := by
  by_cases h : key ∈ k.keys
  · rw [put, if_pos (has_iff_mem_keys.2 h)]
    exact weight_replaced count nodup h value
  · rw [put, if_neg (fun c => h (has_iff_mem_keys.1 c)), lookup_of_notMem h]
    simp [weight]

/-- Further keys are counted. -/
def tallyOnto (counts : Keyed Nat) (ks : List String) : Keyed Nat :=
  ks.foldl (fun counts key => counts.put key ((counts.lookup key).getD 0 + 1)) counts

@[simp] theorem tallyOnto_nil (counts : Keyed Nat) : counts.tallyOnto [] = counts := rfl

@[simp] theorem tallyOnto_cons (counts : Keyed Nat) (key : String) (ks : List String) :
    counts.tallyOnto (key :: ks) =
      (counts.put key ((counts.lookup key).getD 0 + 1)).tallyOnto ks := rfl

theorem tallyOnto_append (counts : Keyed Nat) (ks ks' : List String) :
    counts.tallyOnto (ks ++ ks') = (counts.tallyOnto ks).tallyOnto ks' :=
  List.foldl_append

theorem tally_append_singleton (ks : List String) (key : String) :
    tally (ks ++ [key]) = (tally ks).put key (((tally ks).lookup key).getD 0 + 1) := by
  rw [tally, List.foldl_append]
  rfl

/-- Every key of a list is counted once. -/
theorem weight_tally (ks : List String) :
    (tally ks).keys.Nodup ∧ (tally ks).weight id = ks.length := by
  induction ks using List.reverseRecOn with
  | nil => exact ⟨List.nodup_nil, rfl⟩
  | append_singleton ks key ih =>
    rw [tally_append_singleton]
    refine ⟨nodup_keys_put key _ ih.1, ?_⟩
    have put := weight_put id ih.1 key (((tally ks).lookup key).getD 0 + 1)
    simp only [Option.map_id, id] at put
    rw [List.length_append, List.length_singleton]
    omega

end Keyed

end Plc

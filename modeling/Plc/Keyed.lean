/-
Values under keys, in the order in which the keys came first.

* `Keyed.put` — sets the value of a key, at its old place if it has one;
* `keys_put_of_mem`, `keys_put_of_notMem` — the keys after setting one;
* `lookup_put` — what is found after a value has been put under a key.
-/
namespace Plc

/-- Values under keys; no key comes twice in a list that `Keyed.put` has built. -/
abbrev Keyed (α : Type) := List (String × α)

namespace Keyed

variable {α : Type}

/-- The keys in order. -/
def keys (k : Keyed α) : List String :=
  k.map (·.1)

/-- Some value stands under the key. -/
def has (k : Keyed α) (key : String) : Bool :=
  k.any (·.1 == key)

/-- Sets the value of a key; a new key goes to the end. -/
def put (k : Keyed α) (key : String) (value : α) : Keyed α :=
  if k.has key then k.map fun e => if e.1 == key then (key, value) else e
  else k ++ [(key, value)]

/-- The entries, each key once: a later value replaces an earlier one. -/
def ofEntries (entries : List (String × α)) : Keyed α :=
  entries.foldl (fun k e => k.put e.1 e.2) []

/-- How often each key comes in a list. -/
def tally (keys : List String) : Keyed Nat :=
  keys.foldl (fun counts key => counts.put key ((counts.lookup key).getD 0 + 1)) []

theorem has_iff_mem_keys {k : Keyed α} {key : String} : k.has key = true ↔ key ∈ k.keys := by
  simp [has, keys]

theorem keys_put_of_mem {k : Keyed α} {key : String} (value : α) (h : key ∈ k.keys) :
    (k.put key value).keys = k.keys := by
  rw [put, if_pos (has_iff_mem_keys.2 h), keys, keys, List.map_map]
  refine List.map_congr_left fun e _ => ?_
  by_cases he : e.1 = key <;> simp [he]

theorem keys_put_of_notMem {k : Keyed α} {key : String} (value : α) (h : key ∉ k.keys) :
    (k.put key value).keys = k.keys ++ [key] := by
  rw [put, if_neg (fun c => h (has_iff_mem_keys.1 c))]
  simp [keys]

theorem nodup_keys_put {k : Keyed α} (key : String) (value : α) (h : k.keys.Nodup) :
    (k.put key value).keys.Nodup := by
  by_cases hk : key ∈ k.keys
  · rwa [keys_put_of_mem value hk]
  · rw [keys_put_of_notMem value hk, List.nodup_append]
    refine ⟨h, by simp, ?_⟩
    rintro a ha b hb rfl
    simp only [List.mem_singleton] at hb
    exact hk (hb ▸ ha)

/-! ### What is found -/

theorem lookup_of_notMem {k : Keyed α} {key : String} (h : key ∉ k.keys) : k.lookup key = none := by
  induction k with
  | nil => rfl
  | cons e k ih =>
    simp only [keys, List.map_cons, List.mem_cons, not_or] at h
    rw [List.lookup_cons, beq_false_of_ne h.1]
    exact ih h.2

/-- A value replaced under one key is not seen under another. -/
theorem lookup_replaced (k : Keyed α) {key tag : String} (ne : tag ≠ key) (value : α) :
    (k.map fun e => if e.1 == key then (key, value) else e).lookup tag = k.lookup tag := by
  induction k with
  | nil => rfl
  | cons e k ih =>
    rw [List.map_cons, List.lookup_cons, List.lookup_cons, ih]
    by_cases same : e.1 = key
    · rw [same, beq_self_eq_true, if_pos rfl, beq_false_of_ne ne]
    · rw [beq_false_of_ne same, if_neg Bool.false_ne_true]

/-- A value is found under the key that it has been put under, and the others are where they
were. -/
theorem lookup_put (k : Keyed α) (key tag : String) (value : α) :
    (k.put key value).lookup tag = if tag = key then some value else k.lookup tag := by
  by_cases h : key ∈ k.keys
  · rw [put, if_pos (has_iff_mem_keys.2 h)]
    by_cases eq : tag = key
    · rw [if_pos eq, eq]
      induction k with
      | nil => exact absurd h List.not_mem_nil
      | cons e k ih =>
        rw [List.map_cons]
        by_cases same : e.1 = key
        · rw [same, beq_self_eq_true, if_pos rfl, List.lookup_cons, beq_self_eq_true]
        · obtain eq | there := List.mem_cons.1 h
          · exact absurd eq.symm same
          · rw [beq_false_of_ne same, if_neg Bool.false_ne_true, List.lookup_cons,
              beq_false_of_ne (Ne.symm same)]
            exact ih there
    · rw [if_neg eq, lookup_replaced k eq]
  · rw [put, if_neg (fun c => h (has_iff_mem_keys.1 c)), List.lookup_append]
    by_cases eq : tag = key
    · rw [if_pos eq, eq, lookup_of_notMem h, List.lookup_cons, beq_self_eq_true]
      rfl
    · rw [if_neg eq, List.lookup_cons, beq_false_of_ne eq]
      exact Option.or_none

theorem mem_of_lookup {k : Keyed α} {key : String} {value : α} (h : k.lookup key = some value) :
    (key, value) ∈ k := by
  obtain ⟨before, after, rfl, -⟩ := List.lookup_eq_some_iff.1 h
  exact List.mem_append_right _ List.mem_cons_self

/-- A value under a new key is the last one. -/
theorem put_of_lookup {k : Keyed α} {key : String} (h : k.lookup key = none) (value : α) :
    k.put key value = k ++ [(key, value)] := by
  refine if_neg fun present => ?_
  obtain ⟨e, he, same⟩ := List.any_eq_true.1 present
  have other := List.lookup_eq_none_iff.1 h e he
  rw [beq_iff_eq.1 same, bne_self_eq_false] at other
  cases other

/-- One key more is taken out of a count. -/
theorem countP_notMem {among : List String} {key : String} (new : key ∉ among) (k : Keyed α) :
    k.countP (fun e => e.1 ∉ among) =
      k.countP (fun e => e.1 ∉ key :: among) + k.countP (·.1 = key) := by
  induction k with
  | nil => rfl
  | cons e k ih =>
    rw [List.countP_cons, List.countP_cons, List.countP_cons, ih]
    by_cases same : e.1 = key
    · simp only [same, new, List.mem_cons, true_or, not_true, not_false_eq_true, decide_true,
        decide_false, if_true, Bool.false_eq_true, if_false]
      omega
    · simp only [same, List.mem_cons, false_or, decide_false, Bool.false_eq_true, if_false]
      omega

end Keyed

end Plc

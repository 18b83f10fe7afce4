/-
Results that may be faults.

What ends with a result has come through all of its steps, and a list has been run through when each
of its elements gave a result.

* `bind_eq_ok`, `map_eq_ok` — steps one after the other;
* `mapM_between`, `mapM_around` — one element of a list, and those before and after it.
-/
import Plc.SyntaxError

namespace Plc

variable {α β γ : Type}

theorem bind_eq_ok {r : Except Fault α} {f : α → Except Fault β} {b : β} (h : r >>= f = .ok b) :
    ∃ a, r = .ok a ∧ f a = .ok b := by
  cases r with
  | ok a => exact ⟨a, rfl, h⟩
  | error e => cases h

theorem ok_of_any {r : Except Fault α} {p : α → Bool} (h : r.toOption.any p = true) :
    ∃ a, r = .ok a ∧ p a = true := by
  cases r with
  | ok a => exact ⟨a, rfl, h⟩
  | error e => cases h

theorem ok_of_isSome {r : Except Fault α} (h : r.toOption.isSome = true) : ∃ a, r = .ok a := by
  cases r with
  | ok a => exact ⟨a, rfl⟩
  | error e => cases h

theorem ok_of_map {r : Except Fault α} {f : α → β} {b : β} (h : r.toOption.map f = some b) :
    ∃ a, r = .ok a ∧ f a = b := by
  cases r with
  | ok a => exact ⟨a, rfl, Option.some.inj h⟩
  | error e => cases h

theorem map_eq_ok {r : Except Fault α} {f : α → β} {b : β} (h : r.map f = .ok b) :
    ∃ a, r = .ok a ∧ f a = b := by
  cases r with
  | ok a => exact ⟨a, rfl, Except.ok.inj h⟩
  | error e => cases h

theorem map_eq_error {r : Except Fault α} {f : α → β} {e : Fault} (h : r.map f = .error e) :
    r = .error e := by
  cases r with
  | ok a => cases h
  | error e' => exact congrArg Except.error (Except.error.inj h)

/-- A step that cannot fail adds no fault. -/
theorem bind_pure_eq_error {r : Except Fault α} {g : α → β} {e : Fault} :
    (r >>= fun a => pure (g a)) = .error e ↔ r = .error e := by
  cases r with
  | ok a => exact iff_of_false (by rintro ⟨⟩) (by rintro ⟨⟩)
  | error e' =>
    show (Except.error e' : Except Fault β) = .error e ↔ _
    rw [Except.error.injEq, Except.error.injEq]

theorem mapM_singleton_flatten (f : α → Except Fault (List β)) (a : α) :
    ([a].mapM f).map List.flatten = f a := by
  rw [List.mapM_cons, List.mapM_nil]
  cases f a with
  | error e => rfl
  | ok bs => exact congrArg Except.ok (by simp)

theorem mapM_flatMap (f : α → List β) (g : β → Except Fault γ) (xs : List α) :
    (xs.flatMap f).mapM g = (xs.mapM fun a => (f a).mapM g).map List.flatten := by
  induction xs with
  | nil => rfl
  | cons x xs ih =>
    rw [List.flatMap_cons, List.mapM_append, ih, List.mapM_cons]
    cases (f x).mapM g with
    | error e => rfl
    | ok ys =>
      cases xs.mapM fun a => (f a).mapM g with
      | error e | ok zs => rfl

theorem mapM_map_ok (f : α → Except Fault β) (g : β → γ) (xs : List α) :
    (xs.mapM fun a => (f a).map g) = (xs.mapM f).map (List.map g) := by
  induction xs with
  | nil => rfl
  | cons x xs ih =>
    rw [List.mapM_cons, List.mapM_cons, ih]
    cases f x with
    | error e => rfl
    | ok y =>
      cases xs.mapM f with
      | error e | ok ys => rfl

/-- What the result at each element has in common with the element, the lists have in common. -/
theorem mapM_map_eq {f : α → Except Fault β} {g : α → γ} {k : β → γ}
    (each : ∀ a b, f a = .ok b → k b = g a) {xs : List α} {ys : List β} (h : xs.mapM f = .ok ys) :
    ys.map k = xs.map g := by
  induction xs generalizing ys with
  | nil =>
    cases h
    rfl
  | cons x xs ih =>
    rw [List.mapM_cons] at h
    cases first : f x with
    | error e =>
      rw [first] at h
      cases h
    | ok y =>
      cases rest : xs.mapM f with
      | error e =>
        rw [first, rest] at h
        cases h
      | ok ys =>
        rw [first, rest] at h
        cases h
        rw [List.map_cons, List.map_cons, each x y first, ih rest]

/-- What comes of each element comes of it with another function, too. -/
theorem mapM_eq_ok_of_forall {f g : α → Except Fault β} {xs : List α} {ys : List β}
    (h : xs.mapM f = .ok ys) (same : ∀ x ∈ xs, ∀ y, f x = .ok y → g x = .ok y) :
    xs.mapM g = .ok ys := by
  induction xs generalizing ys with
  | nil => exact h
  | cons x xs ih =>
    rw [List.mapM_cons] at h ⊢
    obtain ⟨y, first, h⟩ := bind_eq_ok h
    obtain ⟨ys, rest, h⟩ := bind_eq_ok h
    cases h
    rw [same x List.mem_cons_self y first,
      ih rest fun x' hx' => same x' (List.mem_cons_of_mem _ hx')]
    rfl

theorem mapM_between {f : α → Except Fault β} {earlier later : List α} {a : α}
    {bs : List β} (h : (earlier ++ a :: later).mapM f = .ok bs) :
    ∃ before b after, bs = before ++ b :: after ∧ earlier.mapM f = .ok before ∧ f a = .ok b ∧
      later.mapM f = .ok after := by
  rw [List.mapM_append, List.mapM_cons] at h
  cases first : earlier.mapM f with
  | error e =>
    rw [first] at h
    cases h
  | ok before =>
    cases mine : f a with
    | error e =>
      rw [first, mine] at h
      cases h
    | ok b =>
      cases last : later.mapM f with
      | error e =>
        rw [first, mine, last] at h
        cases h
      | ok after =>
        rw [first, mine, last] at h
        cases h
        exact ⟨before, b, after, rfl, rfl, rfl, rfl⟩

theorem mapM_around {f : α → Except Fault β} {earlier later : List α}
    {before after : List β} (first : earlier.mapM f = .ok before) (last : later.mapM f = .ok after)
    (a : α) : (earlier ++ a :: later).mapM f = (f a).map fun b => before ++ b :: after := by
  rw [List.mapM_append, List.mapM_cons, first, last]
  cases f a with
  | error e | ok b => rfl

theorem mapM_error {f : α → Except Fault β} {xs : List α} {e : Fault} (h : xs.mapM f = .error e) :
    ∃ x ∈ xs, f x = .error e := by
  induction xs with
  | nil => cases h
  | cons x xs ih =>
    rw [List.mapM_cons] at h
    cases first : f x with
    | error e' =>
      rw [first] at h
      cases h
      exact ⟨x, List.mem_cons_self, first⟩
    | ok y =>
      cases rest : xs.mapM f with
      | error e' =>
        rw [first, rest] at h
        cases h
        obtain ⟨x', hx', stops⟩ := ih rest
        exact ⟨x', List.mem_cons_of_mem _ hx', stops⟩
      | ok ys =>
        rw [first, rest] at h
        cases h

/-- A list is run through just when each of its elements gives a result. -/
theorem mapM_returns_iff {f : α → Except Fault β} {xs : List α} :
    (∃ ys, xs.mapM f = .ok ys) ↔ ∀ x ∈ xs, ∃ y, f x = .ok y := by
  constructor
  · rintro ⟨ys, h⟩ x hx
    obtain ⟨before, after, rfl⟩ := List.append_of_mem hx
    obtain ⟨_, y, _, _, _, gives, _⟩ := mapM_between h
    exact ⟨y, gives⟩
  · intro h
    cases all : xs.mapM f with
    | ok ys => exact ⟨ys, rfl⟩
    | error e =>
      obtain ⟨x, hx, stops⟩ := mapM_error all
      obtain ⟨y, gives⟩ := h x hx
      cases stops.symm.trans gives

/-- Where every fault is the same one, it is enough that one element has it. -/
theorem mapM_eq_error_iff {f : α → Except Fault β} {e : Fault}
    (only : ∀ x e', f x = .error e' → e' = e) {xs : List α} {e' : Fault} :
    xs.mapM f = .error e' ↔ e' = e ∧ ∃ x ∈ xs, f x = .error e := by
  constructor
  · intro h
    obtain ⟨x, hx, stops⟩ := mapM_error h
    obtain rfl := only x e' stops
    exact ⟨rfl, x, hx, stops⟩
  · rintro ⟨rfl, x, hx, stops⟩
    cases all : xs.mapM f with
    | ok ys =>
      obtain ⟨y, gives⟩ := mapM_returns_iff.1 ⟨ys, all⟩ x hx
      cases stops.symm.trans gives
    | error e =>
      obtain ⟨x', _, stops'⟩ := mapM_error all
      exact congrArg Except.error (only x' e stops')

end Plc

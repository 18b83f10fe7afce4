/-
Two checks of one body, the second with less known about its names.

A name of the second table means what it means in the first, but its type may have been lost.  The
two checks take the same steps; where the second meets a lost type it gives the unknown type and
reports nothing, so that it never finds more than the first.

* `Ty.Blurs`, `Symbol.Blurs`, `Scopes.Blurs` — the second knows the same, or nothing, of each type;
* `Alongside` — two checks that keep this between their tables and between what they have found;
* `Reports` — a check that looks at no names: what it gives and what it reports;
* `Alongside.of_type`, `Alongside.of_types` — checks of types, which are quiet where a type is lost;
* `Alongside.forM` — loops.
-/
import Plc.Check.Pou
import Mathlib.Data.List.Forall2
import Mathlib.Data.Option.Basic

namespace Plc

/-- The second type is the first, or is lost. -/
def Ty.Blurs (t t' : Ty) : Prop := t' = t ∨ t' = .unknown

/-- The second symbol is the first, but its type may be lost. -/
structure Symbol.Blurs (x x' : Symbol) : Prop where
  same : x' = { x with type := x'.type }
  type : x'.type = x.type ∨ x'.typeOrUnknown = .unknown

/-- Some types of symbols of the second scope may be lost. -/
structure Scope.Blurs (s s' : Scope) : Prop where
  name : s'.name = s.name
  parent : s'.parent = s.parent
  symbols : List.Forall₂ Symbol.Blurs s.symbols s'.symbols

/-- Some types of symbols of the second table may be lost. -/
structure Scopes.Blurs (t t' : Scopes) : Prop where
  current : t'.current = t.current
  list : List.Forall₂ Scope.Blurs t.list t'.list

/-! ### Lost types -/

namespace Ty

theorem Blurs.refl (t : Ty) : t.Blurs t := .inl rfl

theorem Blurs.unknown (t : Ty) : t.Blurs .unknown := .inr rfl

/-- What is lost fits everywhere. -/
theorem accepts_unknown (t : Ty) : t.accepts .unknown = true := by
  cases t with
  | simple k => cases k <;> rfl
  | subrange base low high => cases base <;> rfl
  | pointer target => cases target <;> rfl
  | _ => rfl

/-- Everything fits where the type is lost. -/
theorem unknown_accepts (t : Ty) : Ty.unknown.accepts t = true := by
  cases t with
  | simple k => cases k <;> rfl
  | subrange base low high => cases base <;> rfl
  | _ => rfl

end Ty

/-! ### Symbols that are looked up and marked -/

namespace Symbol.Blurs

variable {x x' : Symbol}

theorem name (h : x.Blurs x') : x'.name = x.name := by rw [h.same]

theorem kind (h : x.Blurs x') : x'.kind = x.kind := by rw [h.same]

theorem isMutable (h : x.Blurs x') : x'.isMutable = x.isMutable := by rw [h.same]

theorem typeOrUnknown (h : x.Blurs x') : x.typeOrUnknown.Blurs x'.typeOrUnknown := by
  rcases h.type with same | lost
  · exact .inl (congrArg (Option.getD · Ty.unknown) same)
  · exact .inr lost

theorem markUsed (h : x.Blurs x') : Symbol.Blurs { x with used := true } { x' with used := true } :=
  ⟨by rw [h.same], h.type⟩

theorem markAssigned (h : x.Blurs x') :
    Symbol.Blurs { x with assigned := true } { x' with assigned := true } :=
  ⟨by rw [h.same], h.type⟩

end Symbol.Blurs

theorem Symbol.find?_blurs {xs xs' : List Symbol} (h : List.Forall₂ Symbol.Blurs xs xs')
    (name : String) :
    Option.Rel Symbol.Blurs (xs.find? (·.name == name)) (xs'.find? (·.name == name)) := by
  induction h with
  | nil => exact .none
  | cons hx _ ih =>
    rw [List.find?_cons, List.find?_cons, hx.name]
    split
    · exact .some hx
    · exact ih

namespace Scope.Blurs

variable {s s' : Scope}

theorem find? (h : s.Blurs s') (name : String) :
    Option.Rel Symbol.Blurs (s.find? name) (s'.find? name) :=
  Symbol.find?_blurs h.symbols name

theorem modify (h : s.Blurs s') (name : String) {f : Symbol → Symbol}
    (hf : ∀ x x', x.Blurs x' → (f x).Blurs (f x')) : (s.modify name f).Blurs (s'.modify name f) := by
  refine ⟨h.name, h.parent, ?_⟩
  show List.Forall₂ Symbol.Blurs (List.map _ _) (List.map _ _)
  rw [List.forall₂_map_left_iff, List.forall₂_map_right_iff]
  refine h.symbols.imp fun x x' hx => ?_
  rw [hx.name]
  split
  · exact hf x x' hx
  · exact hx

end Scope.Blurs

theorem Scope.modify_blurs {ss ss' : List Scope} (h : List.Forall₂ Scope.Blurs ss ss')
    {f : Scope → Scope} (hf : ∀ s s', s.Blurs s' → (f s).Blurs (f s')) (i : Nat) :
    List.Forall₂ Scope.Blurs (ss.modify i f) (ss'.modify i f) := by
  induction h generalizing i with
  | nil => cases i <;> exact .nil
  | cons hs hss ih =>
    cases i with
    | zero => exact .cons (hf _ _ hs) hss
    | succ i => exact .cons hs (ih i)

namespace Scopes.Blurs

variable {t t' : Scopes}

theorem scopeAt (h : t.Blurs t') (i : Nat) : (t.scopeAt i).Blurs (t'.scopeAt i) := by
  unfold Scopes.scopeAt
  have size := h.list.length_eq
  by_cases inside : i < t.list.length
  · rw [List.getElem?_eq_getElem inside, List.getElem?_eq_getElem (size ▸ inside)]
    exact h.list.get inside (size ▸ inside)
  · rw [List.getElem?_eq_none (by omega), List.getElem?_eq_none (by omega)]
    exact ⟨rfl, rfl, .nil⟩

theorem enclosing (h : t.Blurs t') (count i : Nat) : t'.enclosing count i = t.enclosing count i := by
  induction count generalizing i with
  | zero => rfl
  | succ count ih =>
    unfold Scopes.enclosing
    rw [(h.scopeAt i).parent]
    cases (t.scopeAt i).parent with
    | none => rfl
    | some p => exact congrArg (i :: ·) (ih p)

theorem whereFrom? (h : t.Blurs t') (i : Nat) (name : String) :
    t'.whereFrom? i name = t.whereFrom? i name := by
  unfold Scopes.whereFrom?
  rw [h.enclosing, h.list.length_eq]
  congr 1
  funext j
  have found := (h.scopeAt j).find? name
  generalize (t.scopeAt j).find? name = x, (t'.scopeAt j).find? name = x' at found
  cases found <;> rfl

theorem lookup (h : t.Blurs t') (name : String) :
    Option.Rel Symbol.Blurs (t.lookup name) (t'.lookup name) := by
  unfold Scopes.lookup Scopes.lookupFrom
  rw [h.current, h.whereFrom?]
  cases t.whereFrom? t.current name with
  | none => exact .none
  | some j => exact (h.scopeAt j).find? name

theorem mark (h : t.Blurs t') (name : String) {f : Symbol → Symbol}
    (hf : ∀ x x', x.Blurs x' → (f x).Blurs (f x')) : (t.mark name f).Blurs (t'.mark name f) := by
  unfold Scopes.mark
  rw [h.current, h.whereFrom?]
  cases t.whereFrom? t.current name with
  | none => exact h
  | some i => exact ⟨h.current, Scope.modify_blurs h.list (fun s s' hs => hs.modify name hf) i⟩

end Scopes.Blurs

theorem forall₂_zipIdx {α β : Type} {R : α → β → Prop} {xs : List α} {ys : List β}
    (h : List.Forall₂ R xs ys) (n : Nat) :
    List.Forall₂ (fun a b => R a.1 b.1 ∧ b.2 = a.2) (xs.zipIdx n) (ys.zipIdx n) := by
  induction h generalizing n with
  | nil => exact .nil
  | cons hx _ ih => exact .cons ⟨hx, rfl⟩ (ih (n + 1))

/-! ### Two checks side by side -/

namespace Check

variable {α β γ δ : Type}

/-- What a check gives, and the state after it. -/
def run (m : Check α) (c : Context) (s : State) : α × State := m c s

/-- The second state knows less of its names, and no more has been found. -/
structure State.Blurs (s s' : State) : Prop where
  scopes : s.scopes.Blurs s'.scopes
  types : s'.types = s.types
  found : s'.found.Sublist s.found

/-- From such states the two checks give results that are related, and come to such states. -/
def Alongside (R : α → β → Prop) (m : Check α) (m' : Check β) : Prop :=
  ∀ c s s', s.Blurs s' → R (run m c s).1 (run m' c s').1 ∧ (run m c s).2.Blurs (run m' c s').2

/-- Wherever the check begins, it gives the same and reports the same, and changes nothing else. -/
def Reports (m : Check α) (a : α) (more : List Diagnostic) : Prop :=
  ∀ c s, run m c s = (a, { s with found := s.found ++ more })

namespace Reports

theorem pure (a : α) : Reports (pure a) a [] := by
  intro c s
  rw [List.append_nil]
  rfl

theorem report (severity : Severity) (span : Span) (f : Finding) :
    Reports (report severity span f) () [⟨f, span, severity, none⟩] :=
  fun _ _ => rfl

theorem reportUnless (p : Prop) [Decidable p] (severity : Severity) (span : Span) (f : Finding) :
    Reports (unless p do Check.report severity span f) ()
      (if p then [] else [⟨f, span, severity, none⟩]) := by
  split
  · exact pure _
  · exact report _ _ _

theorem bind {m : Check α} {a : α} {more more' : List Diagnostic} {f : α → Check β} {b : β}
    (hm : Reports m a more) (hf : Reports (f a) b more') : Reports (m >>= f) b (more ++ more') := by
  intro c s
  show run (f (run m c s).1) c (run m c s).2 = _
  rw [hm, hf, List.append_assoc]

end Reports

namespace Alongside

variable {R : α → β → Prop} {S : γ → δ → Prop} {m : Check α} {m' : Check β}

theorem pure {a : α} {b : β} (h : R a b) : Alongside R (pure a) (pure b) :=
  fun _ _ _ hs => ⟨h, hs⟩

theorem bind {f : α → Check γ} {f' : β → Check δ} (hm : Alongside R m m')
    (hf : ∀ a b, R a b → Alongside S (f a) (f' b)) : Alongside S (m >>= f) (m' >>= f') := by
  intro c s s' hs
  obtain ⟨related, after⟩ := hm c s s' hs
  exact hf _ _ related c _ _ after

/-- What both give does not matter. -/
theorem skip {f : α → Check γ} {f' : β → Check δ} (hm : Alongside R m m')
    (hf : ∀ a b, Alongside S (f a) (f' b)) : Alongside S (m >>= f) (m' >>= f') :=
  hm.bind fun a b _ => hf a b

/-- What the second reports is among what the first reports. -/
theorem of_reports {a : α} {b : β} {more more' : List Diagnostic} (hm : Reports m a more)
    (hm' : Reports m' b more') (h : R a b) (less : more'.Sublist more) : Alongside R m m' := by
  intro c s s' hs
  rw [hm, hm']
  exact ⟨h, hs.scopes, hs.types, hs.found.append less⟩

/-- A check that looks at no names. -/
theorem of_fixed {R : α → α → Prop} (hm : ∃ a more, Reports m a more) (same : ∀ a, R a a) :
    Alongside R m m := by
  obtain ⟨a, more, reports⟩ := hm
  exact of_reports reports reports (same a) (List.Sublist.refl more)

section Types

variable {R : α → α → Prop} {b : α} {t t' u u' : Ty} (same : ∀ a, R a a) (lost : ∀ a, R a b)
include same lost

/-- A check of what has one type, which is quiet where the type is lost. -/
theorem of_type {f : Ty → Check α} (hf : ∀ t, ∃ a more, Reports (f t) a more)
    (quiet : Reports (f .unknown) b []) (ht : t.Blurs t') : Alongside R (f t) (f t') := by
  rcases ht with rfl | rfl
  · exact of_fixed (hf _) same
  · obtain ⟨a, more, reports⟩ := hf t
    exact of_reports reports quiet (lost a) (List.nil_sublist more)

/-- A check of what has two types, which is quiet where one of them is lost. -/
theorem of_types {f : Ty → Ty → Check α} (hf : ∀ t u, ∃ a more, Reports (f t u) a more)
    (quiet : ∀ u, Reports (f .unknown u) b []) (quiet' : ∀ t, Reports (f t .unknown) b [])
    (ht : t.Blurs t') (hu : u.Blurs u') : Alongside R (f t u) (f t' u') := by
  rcases hu with rfl | rfl
  · exact of_type same lost (fun t => hf t _) (quiet _) ht
  · obtain ⟨a, more, reports⟩ := hf t u
    exact of_reports reports (quiet' t') (lost a) (List.nil_sublist more)

end Types

section Complaints

variable {t t' u u' : Ty} {severity : Severity} {span : Span}

/-- A complaint about a type, which is not made where the type is lost. -/
theorem complaint (fits : Ty → Bool) (f : Ty → Finding) (quiet : fits .unknown = true)
    (ht : t.Blurs t') : Alongside (fun _ _ => True)
      (unless fits t do Check.report severity span (f t))
      (unless fits t' do Check.report severity span (f t')) := by
  refine of_type (f := fun t => unless fits t do Check.report severity span (f t)) (b := ())
    (fun _ => trivial) (fun _ => trivial) (fun t => ⟨(), _, Reports.reportUnless _ _ _ _⟩) ?_ ht
  rw [if_pos quiet]
  exact .pure _

/-- A complaint about two types, which is not made where one of them is lost. -/
theorem complaint₂ (fits : Ty → Ty → Bool) (f : Ty → Ty → Finding)
    (quiet : ∀ u, fits .unknown u = true) (quiet' : ∀ t, fits t .unknown = true)
    (ht : t.Blurs t') (hu : u.Blurs u') : Alongside (fun _ _ => True)
      (unless fits t u do Check.report severity span (f t u))
      (unless fits t' u' do Check.report severity span (f t' u')) := by
  refine of_types (f := fun t u => unless fits t u do Check.report severity span (f t u)) (b := ())
    (fun _ => trivial) (fun _ => trivial) (fun t u => ⟨(), _, Reports.reportUnless _ _ _ _⟩)
    (fun u => ?_) (fun t => ?_) ht hu
  · rw [if_pos (quiet u)]
    exact .pure _
  · rw [if_pos (quiet' t)]
    exact .pure _

/-- A complaint that the second has less reason for. -/
theorem complaint_of_imp {p p' : Prop} [Decidable p] [Decidable p'] (f : Finding) (h : p → p') :
    Alongside (fun _ _ => True) (unless p do Check.report severity span f)
      (unless p' do Check.report severity span f) := by
  refine of_reports (.reportUnless _ _ _ _) (.reportUnless _ _ _ _) trivial ?_
  by_cases hp : p
  · rw [if_pos hp, if_pos (h hp)]
  · rw [if_neg hp]
    split
    · exact List.nil_sublist _
    · exact List.Sublist.refl _

/-- A complaint, perhaps, and what comes after it. -/
theorem complaint_then {p p' : Prop} [Decidable p] [Decidable p'] {f f' : Finding}
    {k : Unit → Check γ} {k' : Unit → Check δ}
    (h : Alongside (fun _ _ => True) (unless p do Check.report severity span f)
      (unless p' do Check.report severity span f'))
    (hk : Alongside S (k ()) (k' ())) :
    Alongside S (if p then k () else Check.report severity span f >>= k)
      (if p' then k' () else Check.report severity span f' >>= k') := by
  have after (q : Prop) [Decidable q] (g : Finding) {ε : Type} (j : Unit → Check ε) :
      (if q then j () else Check.report severity span g >>= j) =
        ((unless q do Check.report severity span g) >>= j) := by
    split
    · exact (pure_bind () j).symm
    · rfl
  rw [after, after]
  exact skip h fun _ _ => hk

end Complaints

theorem lookup (name : String) :
    Alongside (Option.Rel Symbol.Blurs) (lookup name) (Check.lookup name) :=
  fun _ _ _ hs => ⟨hs.scopes.lookup name, hs⟩

theorem markUsed (name : String) :
    Alongside (fun _ _ => True) (markUsed name) (Check.markUsed name) :=
  fun _ _ _ hs => ⟨trivial, hs.scopes.mark name fun _ _ hx => hx.markUsed, hs.types, hs.found⟩

theorem markAssigned (name : String) :
    Alongside (fun _ _ => True) (markAssigned name) (Check.markAssigned name) :=
  fun _ _ _ hs => ⟨trivial, hs.scopes.mark name fun _ _ hx => hx.markAssigned, hs.types, hs.found⟩

theorem markRootAssigned (v : Variable) :
    Alongside (fun _ _ => True) (markRootAssigned v) (Check.markRootAssigned v) := by
  unfold Check.markRootAssigned
  split
  · exact markAssigned _
  · exact pure trivial

theorem resolve (name : String) : Alongside Eq (resolve name) (Check.resolve name) := by
  intro c s s' hs
  have same (u : State) : run (Check.resolve name) c u =
      (((Registry.resolve name).run u.types).1,
        { u with types := ((Registry.resolve name).run u.types).2 }) := rfl
  rw [same, same, hs.types]
  exact ⟨rfl, hs.scopes, rfl, hs.found⟩

theorem context : Alongside Eq (read : Check Context) read :=
  fun _ _ _ hs => ⟨rfl, hs⟩

theorem get : Alongside State.Blurs (get : Check State) MonadState.get :=
  fun _ _ _ hs => ⟨hs, hs⟩

/-- A loop over lists whose items are related. -/
theorem forM {f : α → Check PUnit} {f' : β → Check PUnit} {xs : List α} {ys : List β}
    (h : List.Forall₂ R xs ys)
    (hf : ∀ x y, R x y → Alongside (fun _ _ => True) (f x) (f' y)) :
    Alongside (fun _ _ => True) (xs.forM f) (ys.forM f') := by
  induction h with
  | nil => exact pure trivial
  | cons hx _ ih => exact skip (hf _ _ hx) fun _ _ => ih

/-- A loop that is never left early. -/
theorem forIn {f : α → PUnit → Check (ForInStep PUnit)} {f' : β → PUnit → Check (ForInStep PUnit)}
    {xs : List α} {ys : List β} (h : List.Forall₂ R xs ys)
    (hf : ∀ x y, R x y → Alongside (fun a b => a = .yield () ∧ b = .yield ()) (f x ()) (f' y ())) :
    Alongside (fun _ _ => True) (forIn xs () f) (forIn ys () f') := by
  induction h with
  | nil => exact pure trivial
  | cons hx _ ih =>
    rw [List.forIn_cons, List.forIn_cons]
    refine bind (hf _ _ hx) ?_
    rintro _ _ ⟨rfl, rfl⟩
    exact ih

end Alongside

end Check

end Plc

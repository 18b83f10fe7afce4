/-
Annotations that wait.

An annotation waits in front of a token until a rule takes it.  It stands in the text after the
tokens that are passed over before it can be taken, and before that token.  A rule takes from the
tokens and the annotations that are left, and adds none.

* `Waits` — where the annotations stand that wait at a place;
* `Further` — what is left at the second of two places was left at the first;
* `Waits.between` — an annotation that is taken stands between what was passed over and what comes;
* `moves` — every rule goes on over the tokens and the annotations.
-/
import Plc.Proofs.Nesting.Reading

namespace Plc.Grammar

variable {α β : Type} {s x : Setting} {b c c' c'' : Cursor} {t : Token} {ts : List Token}

/-! ### What is left -/

/-- What is left at the second place was left at the first: some tokens are passed over, and some
annotations may be taken. -/
structure Further (c c' : Cursor) : Prop where
  index : c.index ≤ c'.index
  rest : c'.rest = c.rest.drop (c'.index - c.index)
  pragmas : c'.pragmas ⊆ c.pragmas

/-- Each annotation that can still be taken stands after the tokens that are passed over first, and
before those that come then. -/
def Waits (s : Setting) (c : Cursor) : Prop :=
  ∀ e ∈ c.pragmas, c.index ≤ e.1 → ∀ t ∈ e.2,
    (∀ u ∈ c.rest.take (e.1 - c.index), u.span.stop ≤ t.span.start) ∧
    (∀ u ∈ c.rest.drop (e.1 - c.index), t.span.stop ≤ u.span.start) ∧
    t.span.stop ≤ s.source.length

namespace Further

theorem refl (c : Cursor) : Further c c :=
  ⟨Nat.le_refl _, by rw [Nat.sub_self, List.drop_zero], List.Subset.refl _⟩

theorem trans (h : Further c c') (h' : Further c' c'') : Further c c'' := by
  refine ⟨Nat.le_trans h.index h'.index, ?_, List.Subset.trans h'.pragmas h.pragmas⟩
  have first := h.index
  have second := h'.index
  rw [h'.rest, h.rest, List.drop_drop]
  congr 1
  omega

theorem of_same (rest : c'.rest = c.rest) (index : c'.index = c.index)
    (pragmas : c'.pragmas ⊆ c.pragmas) : Further c c' :=
  ⟨Nat.le_of_eq index.symm, by rw [rest, index, Nat.sub_self, List.drop_zero], pragmas⟩

/-- Tokens that were passed over at the first place are so at the second. -/
theorem take_subset (h : Further c c') :
    b.rest.take (c.index - b.index) ⊆ b.rest.take (c'.index - b.index) := by
  have := h.index
  exact List.take_subset_take_left _ (by omega)

end Further

namespace Waits

theorem further (h : Waits s c) (on : Further c c') : Waits s c' := by
  intro e mem le t ht
  have first := on.index
  obtain ⟨after, before, inside⟩ := h e (on.pragmas mem) (Nat.le_trans first le) t ht
  have parts : e.1 - c.index = (c'.index - c.index) + (e.1 - c'.index) := by omega
  refine ⟨fun u hu => after u ?_, fun u hu => before u ?_, inside⟩
  · rw [on.rest] at hu
    rw [parts, List.take_add]
    exact List.mem_append_right _ hu
  · rw [on.rest, List.drop_drop] at hu
    rwa [parts]

/-- An annotation that is taken now stands after every token passed over since, and before the next
one. -/
theorem between (h : Waits s b) (on : Further b c) (order : InOrder s c)
    (mem : (c.index, ts) ∈ c.pragmas) (ht : t ∈ ts) :
    (∀ u ∈ b.rest.take (c.index - b.index), u.span.stop ≤ t.span.start) ∧
      t.span.stop ≤ (s.next c).span.start := by
  obtain ⟨after, before, inside⟩ := h _ (on.pragmas mem) on.index t ht
  refine ⟨after, ?_⟩
  by_cases none : c.rest = []
  · rw [order.next_finish none]
    exact inside
  · exact before _ (on.rest ▸ InOrder.next_mem none)

end Waits

/-! ### The beginning of a text -/

/-- Annotations that are taken out of the tokens of a text keep their place among those left. -/
theorem liftPragmas_between (index : Nat) (pending : List Token)
    (row : (pending ++ ts).Pairwise fun t u => t.span.stop ≤ u.span.start) :
    ∀ e ∈ (liftPragmas index pending ts).2, index ≤ e.1 ∧ ∀ t ∈ e.2, t ∈ pending ++ ts ∧
      (∀ u ∈ (liftPragmas index pending ts).1.take (e.1 - index), u.span.stop ≤ t.span.start) ∧
      ∀ u ∈ (liftPragmas index pending ts).1.drop (e.1 - index), t.span.stop ≤ u.span.start := by
  -- those that wait in front of the first token come before all the tokens
  have waiting (index : Nat) (pending rest : List Token)
      (before : ∀ t ∈ pending, ∀ u ∈ rest, t.span.stop ≤ u.span.start) :
      ∀ t ∈ pending, (∀ u ∈ rest.take (index - index), u.span.stop ≤ t.span.start) ∧
        ∀ u ∈ rest.drop (index - index), t.span.stop ≤ u.span.start := by
    intro t ht
    rw [Nat.sub_self, List.take_zero, List.drop_zero]
    exact ⟨List.forall_mem_nil _, before t ht⟩
  induction ts generalizing index pending with
  | nil =>
    intro e he
    cases pending with
    | nil => cases he
    | cons t pending =>
      obtain rfl := List.mem_singleton.1 he
      refine ⟨Nat.le_refl _, fun u hu => ⟨List.mem_append_left _ hu, ?_⟩⟩
      exact waiting _ _ [] (by rintro t - u ⟨⟩) u hu
  | cons t ts ih =>
    unfold liftPragmas
    split
    · have moved : pending ++ t :: ts = (pending ++ [t]) ++ ts := by
        rw [List.append_assoc, List.singleton_append]
      rw [moved]
      exact ih _ _ (moved ▸ row)
    · obtain ⟨-, later, across⟩ := List.pairwise_append.1 row
      obtain ⟨ahead, tail⟩ := List.pairwise_cons.1 later
      have lifted := ih (index + 1) [] tail
      have further (e) (he : e ∈ (liftPragmas (index + 1) [] ts).2) : index ≤ e.1 ∧ ∀ v ∈ e.2,
          v ∈ pending ++ t :: ts ∧
          (∀ u ∈ (t :: (liftPragmas (index + 1) [] ts).1).take (e.1 - index),
            u.span.stop ≤ v.span.start) ∧
          ∀ u ∈ (t :: (liftPragmas (index + 1) [] ts).1).drop (e.1 - index),
            v.span.stop ≤ u.span.start := by
        obtain ⟨le, places⟩ := lifted e he
        refine ⟨Nat.le_of_succ_le le, fun v hv => ?_⟩
        obtain ⟨mem, after, before⟩ := places v hv
        have one : e.1 - index = (e.1 - (index + 1)) + 1 := by omega
        refine ⟨List.mem_append_right _ (List.mem_cons_of_mem _ mem), ?_, ?_⟩
        · rw [one, List.take_succ_cons]
          exact List.forall_mem_cons.2 ⟨ahead v mem, after⟩
        · rwa [one, List.drop_succ_cons]
      dsimp only
      split
      · exact further
      · refine List.forall_mem_cons.2 ⟨⟨Nat.le_refl _, fun v hv => ⟨List.mem_append_left _ hv, ?_⟩⟩,
          further⟩
        refine waiting _ _ _ (fun v hv u hu => across v hv u ?_) v hv
        refine List.mem_cons.2 ((List.mem_cons.1 hu).imp_right fun hu => ?_)
        exact (liftPragmas_sublist _ _ _).subset hu

/-- Where the reading of a text begins, its annotations wait. -/
theorem Cursor.before_waits {source : List Char} {d : Dialect} {l : Limits} {recovers : Bool}
    (h : tokensWithin l d source = .ok ts) :
    Waits ⟨source, d, l, recovers, ts.getLastD (Scanner.finish source.length)⟩ (.before ts) := by
  obtain ⟨front, rfl, goes, row, -⟩ := tokens_row (tokens_of_tokensWithin h)
  have lifted := liftPragmas_between 0 [] (List.pairwise_append.1 row).1
  unfold Cursor.before
  rw [List.dropLast_concat]
  intro e mem _ t ht
  obtain ⟨-, places⟩ := lifted e mem
  obtain ⟨there, after, before⟩ := places t ht
  exact ⟨after, before, (goes t there).2⟩

/-! ### Every rule goes on -/

/-- Where rules lead, tokens are passed over and annotations taken. -/
theorem Further.course : Course fun _ c c' => Further c c' where
  trans := .trans
  aside _ c _ _ _ := .of_same rfl rfl (List.Subset.refl c.pragmas)
  count _ c := .of_same rfl rfl (List.Subset.refl c.pragmas)
  advance s c := by
    obtain ⟨rest, index, lastStop, pragmas, usage, declared, errors⟩ := c
    cases rest with
    -- at the end of the text the index stays, as the tokens do
    | nil => exact .of_same rfl rfl (List.Subset.refl _)
    | cons t rest =>
      have one : index + 1 - index = 1 := Nat.add_sub_cancel_left _ _
      exact ⟨Nat.le_succ index, (congrArg (List.drop · (t :: rest)) one).symm, List.Subset.refl _⟩
  take _ _ _ fewer := .of_same rfl rfl fewer
  note _ c _ := .of_same rfl rfl (List.Subset.refl c.pragmas)

/-- However the rule ends, it stays or goes on, over the tokens and over what waits. -/
def Moves (r : Rule α) : Prop :=
  Leads (fun s c c' => (InOrder s c → InOrder s c' ∧ Onward s c c') ∧ Further c c') r

theorem moves_course :
    Course fun s c c' => (InOrder s c → InOrder s c' ∧ Onward s c c') ∧ Further c c' :=
  Course.and Proceeds.course Further.course

theorem moves : GrammarCongruence fun _ _ (r : Rule _) => Moves r :=
  Course.grammar moves_course

namespace Moves

theorem bind {r : Rule α} {f : α → Rule β} (hr : Moves r) (hf : ∀ a, Moves (f a)) :
    Moves (r >>= f) :=
  Course.bind moves_course hr hf

theorem commaList {item : Rule α} {spanOf : α → Span} (h : Moves item) :
    Moves (commaList item spanOf) :=
  @Congruence.commaList _ _ (Course.congruence moves_course) _ item item spanOf h

theorem whileTokens {step : α → Rule (Option α)} (h : ∀ a, Moves (step a)) (a : α) :
    Moves (whileTokens step a) :=
  @Steps.whileTokens_rel _ _ (Course.congruence moves_course).toSteps _ step step h a

theorem many {more : Rule Bool} {item : Nat → Rule (List α)} (hmore : Moves more)
    (hitem : ∀ size, Moves (item size)) (n size : Nat) : Moves (many more item n size) :=
  @Steps.many_rel _ _ (Course.congruence moves_course).toSteps _ more more item item hmore hitem n size

theorem recovering {r : Rule α} (stops : Lexeme → Bool) (pastSemicolon : Bool) (h : Moves r) :
    Moves (recovering stops pastSemicolon r) :=
  Course.recovering moves_course stops pastSemicolon h

end Moves

end Plc.Grammar

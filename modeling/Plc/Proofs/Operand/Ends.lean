/-
Operands that are taken apart without end.

The parts of a text are shorter than the text, but one: a text that is its own only term.  Where it
is a call of a known function whose parentheses do not match, such as `ABS(x)(y)`, it is an expression
and is taken apart again, and again.  Every other text comes to an end, and the levels that
`value` allows are enough for it; so an operand without a value would have none with any
number of levels.

* `isUndivided_of_mem_termsOf` — a term is its own only term;
* `IsStuck`, `classify_stuck` — the texts that are taken apart into themselves;
* `Enough` — the levels that a text of some length needs at most;
* `IsEndless`, `value_eq_ok_iff`, `value_eq_error_iff` — which operands have a value;
* `Rung.tagUses_eq_error_iff` — the rungs whose tags are not found.
-/
import Plc.Ladder.Rung
import Plc.Proofs.Operand.Tags

namespace Plc.Ladder

namespace Operand

open Text

/-! ### Parts are shorter -/

theorem pieces_sublist (separates : Char × Bool → Bool) {ms : List (Char × Bool)} {p : List Char}
    (h : p ∈ pieces separates ms) : p.Sublist (ms.map Prod.fst) := by
  induction ms generalizing p with
  | nil =>
    obtain rfl := List.mem_singleton.1 h
    exact List.nil_sublist _
  | cons m ms ih =>
    rw [List.map_cons]
    rw [pieces] at h
    split at h
    · obtain rfl | later := List.mem_cons.1 h
      · exact List.nil_sublist _
      · exact (ih later).cons _
    · split at h
      · next q qs eq =>
        rw [eq] at ih
        obtain rfl | later := List.mem_cons.1 h
        · exact (ih List.mem_cons_self).cons_cons _
        · exact (ih (List.mem_cons_of_mem _ later)).cons _
      · obtain rfl := List.mem_singleton.1 h
        exact (List.nil_sublist _).cons_cons _

theorem length_of_mem_pieces {separates : Char × Bool → Bool} {text t : List Char}
    (h : t ∈ (pieces separates (leveled 0 text)).map trim) : t.length ≤ text.length := by
  obtain ⟨p, hp, rfl⟩ := List.mem_map.1 h
  have inside := ((trim_sublist p).trans (pieces_sublist separates hp)).length_le
  rwa [map_fst_leveled] at inside

theorem length_of_mem_termsOf {text t : List Char} (h : t ∈ termsOf text) :
    t.length ≤ text.length :=
  length_of_mem_pieces (List.mem_of_mem_filter h)

theorem length_of_mem_argumentsOf {text t : List Char} (h : t ∈ argumentsOf text) :
    t.length ≤ text.length :=
  length_of_mem_pieces (List.mem_of_mem_filter h)

/-- A subscript is shorter than the text that its bracket is in; what has been read of it counts. -/
theorem length_of_mem_subscripts {open? : Option (Nat × Subscript)} {afterDot : Bool}
    {cs : List Char} {s : Subscript} (h : s ∈ subscripts open? afterDot cs) :
    s.text.length < cs.length + open?.elim 0 fun o => o.2.text.length + 1 := by
  -- Induction along the accesses. The bracket that is open pays for the subscript, and is not part
  -- of it.
  fun_induction subscripts open? afterDot cs with
  | case1 => cases h
  | case2 afterDot depth o =>
    obtain rfl := List.mem_singleton.1 h
    simp
  | case3 afterDot c cs _ ih =>
    have := ih h
    simp only [Option.elim, List.length_nil, List.length_cons] at this ⊢
    omega
  | case4 afterDot c cs _ ih =>
    have := ih h
    simp only [Option.elim, List.length_cons] at this ⊢
    omega
  | case5 afterDot c cs depth o _ ih =>
    have := ih h
    simp only [Option.elim, List.length_cons] at this ⊢
    omega
  | case6 afterDot c cs o _ _ ih =>
    obtain rfl | later := List.mem_cons.1 h
    · simp only [Option.elim, List.length_cons, List.length_reverse]
      omega
    · have := ih later
      simp only [Option.elim, List.length_cons] at this ⊢
      omega
  | case7 afterDot c cs o _ _ depth ih =>
    have := ih h
    simp only [Option.elim, List.length_cons] at this ⊢
    omega
  | case8 afterDot c cs depth o _ _ ih =>
    have := ih h
    simp only [Option.elim, List.length_cons] at this ⊢
    omega

theorem length_of_mem_partsOf {text part : List Char} (h : part ∈ partsOf text) :
    part.length < text.length := by
  obtain ⟨s, hs, hpart⟩ := List.mem_flatMap.1 h
  have shorter := length_of_mem_subscripts hs
  have inside : (accesses text).length ≤ text.length :=
    ((List.dropWhile_sublist _).trans (List.dropWhile_sublist _)).length_le
  have within : part.length ≤ s.text.length := by
    unfold Subscript.parts at hpart
    split at hpart
    · exact (congrArg List.length (List.mem_singleton.1 hpart)).le
    · exact length_of_mem_argumentsOf (List.mem_of_mem_filter hpart)
  simp only [Option.elim] at shorter
  omega

theorem length_of_call? {text name args : List Char} (h : call? text = some (name, args)) :
    args.length < text.length := by
  unfold call? at h
  dsimp only at h
  split at h
  · next rest _ behind =>
    split at h
    · cases h
      have inside : ((text.dropWhile isNameChar).dropWhile isBlank).length ≤ text.length :=
        ((List.dropWhile_sublist _).trans (List.dropWhile_sublist _)).length_le
      rw [behind, List.length_cons] at inside
      rw [List.length_dropLast]
      omega
    · cases h
  · cases h

theorem length_of_mem_inputs? {text arg : List Char} {args : List (List Char)}
    (h : inputs? text = some args) (harg : arg ∈ args) : arg.length < text.length := by
  unfold inputs? at h
  split at h
  · next called =>
    split at h
    · cases h
      exact Nat.lt_of_le_of_lt (length_of_mem_argumentsOf harg) (length_of_call? called)
    · cases h
  · cases h

theorem withoutParens_shorter (count : Nat) (text : List Char) :
    withoutParens count text = text ∨ (withoutParens count text).length < text.length := by
  induction count generalizing text with
  | zero => exact .inl rfl
  | succ count ih =>
    unfold withoutParens
    split
    · next rest =>
      split
      · right
        have inner := (trim_sublist rest.dropLast).length_le
        rw [List.length_dropLast] at inner
        rw [List.length_cons]
        obtain same | less := ih (trim rest.dropLast)
        · rw [same]
          omega
        · omega
      · exact .inl rfl
    · exact .inl rfl

/-! ### Terms -/

theorem leveled_isPrefix (depth : Int) (cs ds : List Char) :
    leveled depth cs <+: leveled depth (cs ++ ds) := by
  induction cs generalizing depth with
  | nil => exact List.nil_prefix
  | cons c cs ih =>
    rw [List.cons_append, leveled, leveled]
    split
    · exact (List.prefix_cons_inj _).2 (ih _)
    · split
      · exact (List.prefix_cons_inj _).2 (ih _)
      · exact (List.prefix_cons_inj _).2 (ih _)

/-- No piece between dividers is divided: a piece behind a divider begins outside of all brackets, and
the first one where the text does. -/
theorem pieces_undivided (depth : Int) (text : List Char) :
    ∃ p ps, pieces dividesTerms (leveled depth text) = p :: ps ∧
      (∀ m ∈ leveled depth p, dividesTerms m = false) ∧
      ∀ q ∈ ps, ∀ m ∈ leveled 0 q, dividesTerms m = false := by
  have grow {m : Char × Bool} {ms : List (Char × Bool)} {p : List Char} {ps : List (List Char)}
      (undivided : dividesTerms m = false) (eq : pieces dividesTerms ms = p :: ps) :
      pieces dividesTerms (m :: ms) = (m.1 :: p) :: ps := by
    rw [pieces, undivided, eq]
    rfl
  induction text generalizing depth with
  | nil => exact ⟨[], [], rfl, List.forall_mem_nil _, List.forall_mem_nil _⟩
  | cons c text ih =>
    by_cases o : opens c = true
    · obtain ⟨p, ps, eq, first, others⟩ := ih (depth + 1)
      refine ⟨c :: p, ps, ?_, ?_, others⟩
      · rw [leveled, if_pos o]
        exact grow rfl eq
      · rw [leveled, if_pos o]
        exact List.forall_mem_cons.2 ⟨rfl, first⟩
    by_cases cl : closes c = true
    · obtain ⟨p, ps, eq, first, others⟩ := ih (depth - 1)
      refine ⟨c :: p, ps, ?_, ?_, others⟩
      · rw [leveled, if_neg o, if_pos cl]
        exact grow rfl eq
      · rw [leveled, if_neg o, if_pos cl]
        exact List.forall_mem_cons.2 ⟨rfl, first⟩
    obtain ⟨p, ps, eq, first, others⟩ := ih depth
    have here (rest : List Char) : leveled depth (c :: rest) = (c, depth == 0) :: leveled depth rest := by
      rw [leveled, if_neg o, if_neg cl]
    cases divides : dividesTerms (c, depth == 0) with
    | false =>
      refine ⟨c :: p, ps, ?_, ?_, others⟩
      · rw [here]
        exact grow divides eq
      · rw [here]
        exact List.forall_mem_cons.2 ⟨divides, first⟩
    | true =>
      -- a divider stands outside of all brackets, and so does what follows it
      have top : (depth == 0) = true := by
        rw [dividesTerms, Bool.and_eq_true] at divides
        exact divides.1
      obtain rfl := beq_iff_eq.1 top
      refine ⟨[], p :: ps, ?_, List.forall_mem_nil _, List.forall_mem_cons.2 ⟨first, others⟩⟩
      rw [here, pieces, if_pos divides, eq]

theorem isBlank_of_bracket {c : Char} (h : opens c = true ∨ closes c = true) : isBlank c = false := by
  simp only [opens, closes, Bool.or_eq_true, beq_iff_eq] at h
  obtain (rfl | rfl) | rfl | rfl := h
  all_goals decide

/-- A part that is not divided begins with no blank. -/
theorem head_of_undivided {p : List Char} (h : ∀ m ∈ leveled 0 p, dividesTerms m = false) :
    ∀ c ∈ p.head?, isBlank c = false := by
  cases p with
  | nil => exact fun c hc => by cases hc
  | cons c p =>
    rintro d ⟨⟩
    by_cases bracket : opens c = true ∨ closes c = true
    · exact isBlank_of_bracket bracket
    · rw [not_or] at bracket
      rw [leveled, if_neg bracket.1, if_neg bracket.2] at h
      have outside := h _ List.mem_cons_self
      simp only [dividesTerms, beq_self_eq_true, Bool.true_and, Bool.or_eq_false_iff] at outside
      exact outside.2

/-- A term is not divided, and no word that is an operator. -/
theorem isUndivided_of_mem_termsOf {text t : List Char} (h : t ∈ termsOf text) :
    IsUndivided t ∧ isWordOperator t = false := by
  rw [termsOf_eq_filter, List.mem_filter, Bool.and_eq_true, Bool.not_eq_true', Bool.not_eq_true',
    List.isEmpty_eq_false_iff] at h
  obtain ⟨mem, some_char, word⟩ := h
  refine ⟨?_, word⟩
  obtain ⟨p, hp, rfl⟩ := List.mem_map.1 mem
  have undivided : ∀ m ∈ leveled 0 p, dividesTerms m = false := by
    obtain ⟨q, qs, eq, first, others⟩ := pieces_undivided 0 text
    rw [eq] at hp
    obtain rfl | later := List.mem_cons.1 hp
    · exact first
    · exact others p later
  -- a piece begins with no blank, so that only blanks at its end are left out
  have start : trimStart p = p := trimStart_eq_self_iff.2 (head_of_undivided undivided)
  obtain ⟨blanks, parts, -⟩ := trimEnd_append_blanks p
  rw [trim, start] at some_char ⊢
  have inside : ∀ m ∈ leveled 0 (trimEnd p), dividesTerms m = false := by
    intro m hm
    refine undivided m ?_
    rw [parts]
    exact (leveled_isPrefix 0 _ blanks).subset hm
  refine ⟨⟨some_char, head_of_undivided inside, fun c hc => ?_⟩, inside⟩
  rw [trimEnd, List.getLast?_reverse] at hc
  have stop := List.head?_dropWhile_not isBlank p.reverse
  rw [Option.mem_def.1 hc] at stop
  simpa using stop

/-! ### Texts that are taken apart into themselves -/

/-- A call of a known function that is one term, and whose parentheses do not match. -/
structure IsStuck (text : List Char) : Prop where
  undivided : IsUndivided text
  known : isFunctionCall text = true
  unmatched : inputs? text = none

namespace IsStuck

variable {text : List Char}

/-- It begins with a name, and a parenthesis opens in it. -/
theorem begins (h : IsStuck text) : (∃ c ∈ text.head?, isNameStart c = true) ∧ '(' ∈ text := by
  have called : (call? text).isSome = true := by
    have known := h.known
    rw [isFunctionCall] at known
    cases found : call? text with
    | some _ => rfl
    | none =>
      rw [found] at known
      cases known
  -- A call has a name in front and a parenthesis behind it and its blanks.
  unfold call? at called
  dsimp only at called
  split at called
  · next c cs rest name behind =>
    split at called
    · next start =>
      rw [Bool.and_eq_true] at start
      constructor
      · cases text with
        | nil => cases name
        | cons d text =>
          by_cases first : isNameChar d = true
          · rw [List.takeWhile_cons_of_pos first] at name
            obtain rfl := (List.cons.inj name).1
            exact ⟨d, rfl, start.1⟩
          · rw [List.takeWhile_cons_of_neg first] at name
            cases name
      · have inside : ((text.dropWhile isNameChar).dropWhile isBlank).Sublist text :=
          (List.dropWhile_sublist _).trans (List.dropWhile_sublist _)
        rw [behind] at inside
        exact inside.subset List.mem_cons_self
    · cases called
  · cases called

theorem isLiteral_eq (h : IsStuck text) : isLiteral text = false := by
  obtain ⟨⟨c, hc, start⟩, -⟩ := h.begins
  obtain ⟨cs, rfl⟩ := List.head?_eq_some_iff.1 hc
  have other {d : Char} (hd : isNameStart d = false) : c ≠ d := by
    rintro rfl
    rw [start] at hd
    cases hd
  refine not_isLiteral h.undivided.trimmed ?_ ?_
  · rintro d ⟨⟩
    exact ⟨other rfl, other rfl, other rfl⟩
  · have digit := Lexed.not_isAsciiDigit_of_isNameStart start
    have ones : c ≠ '1' ∧ c ≠ '8' ∧ c ≠ '2' := ⟨other rfl, other rfl, other rfl⟩
    have signs : c ≠ '+' ∧ c ≠ '-' := ⟨other rfl, other rfl⟩
    simp [isNumber, digit, signs, Ne.symm ones.1, Ne.symm ones.2.1, Ne.symm ones.2.2]

theorem withoutParens_eq (h : IsStuck text) (count : Nat) : withoutParens count text = text := by
  obtain ⟨⟨c, hc, start⟩, -⟩ := h.begins
  obtain ⟨cs, rfl⟩ := List.head?_eq_some_iff.1 hc
  cases count with
  | zero => rfl
  | succ count =>
    unfold withoutParens
    split
    · next paren =>
      obtain ⟨rfl, -⟩ := List.cons.inj paren
      exact absurd start (by decide)
    · rfl

end IsStuck

/-- Such a text is not classified with any number of levels. -/
theorem classify_stuck {text : List Char} (h : IsStuck text) (levels : Nat) :
    classify levels text = .error .endless := by
  have trimmed := h.undivided.trimmed
  have literal := h.isLiteral_eq
  have expression : isExpression text = true := by rw [isExpression, h.known, Bool.or_true]
  have word : isWordOperator text = false := isWordOperator_eq_false h.begins.2
  -- three levels further down it is the same text again
  induction levels using Nat.strongRecOn with
  | ind levels ih =>
    cases levels with
    | zero =>
      rw [classify, trimmed.trim_eq]
      simp only [literal, Bool.false_eq_true, if_false]
    | succ levels =>
      rw [classify_expression trimmed literal expression]
      cases levels with
      | zero => rfl
      | succ levels =>
        rw [collect_term h.undivided word]
        cases levels with
        | zero => rfl
        | succ levels =>
          have again := ih levels (by omega)
          simp only [collectTerm, h.unmatched, h.withoutParens_eq, bne_self_eq_false,
            h.undivided.looksLikeExpression_eq, Bool.or_self, Bool.false_eq_true, if_false, again]
          rfl

/-! ### How many levels are enough -/

/-- What comes out with some number of levels comes out with every other number of levels that the
length of the text asks for. -/
structure Enough (n : Nat) : Prop where
  whole : ∀ {text : List Char} {v : Value}, classify n text = .ok v →
    ∀ {m : Nat}, 4 * text.length + 2 ≤ m → classify m text = .ok v
  /-- What is taken for a tag needs fewer levels than an expression of the same length. -/
  tag : ∀ {text : List Char} {v : Value}, isExpression (trim text) = false →
    classify n text = .ok v → ∀ {m : Nat}, 4 * text.length ≤ m + 1 → classify m text = .ok v
  terms : ∀ {text : List Char} {vs : List Value}, collect n text = .ok vs →
    ∀ {m : Nat}, 4 * text.length + 1 ≤ m → collect m text = .ok vs
  term : ∀ {text : List Char} {vs : List Value}, IsUndivided text → collectTerm n text = .ok vs →
    ∀ {m : Nat}, 4 * text.length ≤ m → collectTerm m text = .ok vs

/-- A text that is no literal is not empty. -/
theorem length_pos_of_not_isLiteral {text : List Char} (h : isLiteral (trim text) = false) :
    0 < text.length := by
  refine List.length_pos_iff.2 ?_
  rintro rfl
  cases h

theorem Enough.zero : Enough 0 := by
  have literal {text : List Char} {v : Value} (h : classify 0 text = .ok v) (m : Nat) :
      classify m text = .ok v := by
    rw [classify] at h
    split at h
    · next literal =>
      rw [classify_literal literal]
      exact h
    · cases h
  exact ⟨fun h m _ => literal h m, fun _ h m _ => literal h m, by rintro text vs ⟨⟩,
    by rintro text vs - ⟨⟩⟩

namespace Enough

variable {n m : Nat} {text : List Char} {v : Value} {vs : List Value}

/-- A tag: its indices are shorter than the text. -/
theorem tag_succ (ih : Enough n) (expression : isExpression (trim text) = false)
    (h : classify (n + 1) text = .ok v) (enough : 4 * text.length ≤ m + 1) :
    classify m text = .ok v := by
  cases literal : isLiteral (trim text) with
  | true =>
    rw [classify_literal literal] at h ⊢
    exact h
  | false =>
    have some_char := length_pos_of_not_isLiteral literal
    have inside := (trim_sublist text).length_le
    obtain ⟨m, rfl⟩ : ∃ k, m = k + 1 := ⟨m - 1, by omega⟩
    simp only [classify, literal, expression, Bool.false_eq_true, if_false] at h ⊢
    obtain ⟨indices, parts, rfl⟩ := map_eq_ok h
    rw [mapM_eq_ok_of_forall parts fun part hpart w hw => ?_]
    · rfl
    · have shorter := length_of_mem_partsOf hpart
      exact ih.whole hw (by omega)

/-- An expression: its terms may be as long as the text. -/
theorem whole_succ (ih : Enough n) (h : classify (n + 1) text = .ok v)
    (enough : 4 * text.length + 2 ≤ m) : classify m text = .ok v := by
  cases expression : isExpression (trim text) with
  | false => exact ih.tag_succ expression h (by omega)
  | true =>
    cases literal : isLiteral (trim text) with
    | true =>
      rw [classify_literal literal] at h ⊢
      exact h
    | false =>
      have inside := (trim_sublist text).length_le
      obtain ⟨m, rfl⟩ : ∃ k, m = k + 1 := ⟨m - 1, by omega⟩
      simp only [classify, literal, expression, Bool.false_eq_true, if_false, if_true] at h ⊢
      obtain ⟨terms, collected, rfl⟩ := map_eq_ok h
      rw [ih.terms collected (by omega)]
      rfl

theorem terms_succ (ih : Enough n) (h : collect (n + 1) text = .ok vs)
    (enough : 4 * text.length + 1 ≤ m) : collect m text = .ok vs := by
  obtain ⟨m, rfl⟩ : ∃ k, m = k + 1 := ⟨m - 1, by omega⟩
  rw [collect] at h ⊢
  obtain ⟨found, each, rfl⟩ := map_eq_ok h
  rw [mapM_eq_ok_of_forall each fun t ht ws hws => ?_]
  · rfl
  · have inside := length_of_mem_termsOf ht
    exact ih.term (isUndivided_of_mem_termsOf ht).1 hws (by omega)

/-- A term that is no call and has a value is no expression, since it would be its own only term. -/
theorem not_isExpression (undivided : IsUndivided text) (inputs : inputs? text = none)
    (h : classify n text = .ok v) : isExpression (trim text) = false := by
  rw [undivided.trimmed.trim_eq, isExpression, undivided.looksLikeExpression_eq, Bool.false_or]
  by_contra known
  rw [Bool.not_eq_false] at known
  rw [classify_stuck ⟨undivided, known, inputs⟩] at h
  cases h

/-- A term: the inputs of a call and what stands in parentheses are shorter than the text.  Any other
term is classified as it is. -/
theorem term_succ (ih : Enough n) (undivided : IsUndivided text)
    (h : collectTerm (n + 1) text = .ok vs) (enough : 4 * text.length ≤ m) :
    collectTerm m text = .ok vs := by
  have some_char := List.length_pos_iff.2 undivided.trimmed.nonempty
  obtain ⟨m, rfl⟩ : ∃ k, m = k + 1 := ⟨m - 1, by omega⟩
  rw [collectTerm] at h ⊢
  cases inputs : inputs? text with
  | some args =>
    simp only [inputs] at h ⊢
    obtain ⟨values, each, rfl⟩ := map_eq_ok h
    rw [mapM_eq_ok_of_forall each fun arg harg w hw => ?_]
    · rfl
    · have shorter := length_of_mem_inputs? inputs harg
      exact ih.whole hw (by omega)
  | none =>
    simp only [inputs] at h ⊢
    obtain bare | shorter := withoutParens_shorter text.length text
    · rw [bare] at h ⊢
      simp only [bne_self_eq_false, undivided.looksLikeExpression_eq, Bool.or_self,
        Bool.false_eq_true, if_false] at h ⊢
      obtain ⟨v, classified, rfl⟩ := map_eq_ok h
      rw [ih.tag (not_isExpression undivided inputs classified) classified (by omega)]
      rfl
    · have other : (withoutParens text.length text != text) = true := by
        rw [bne_iff_ne]
        intro same
        rw [same] at shorter
        exact Nat.lt_irrefl _ shorter
      simp only [other, Bool.true_or, if_true] at h ⊢
      exact ih.terms h (by omega)

theorem succ (ih : Enough n) : Enough (n + 1) where
  whole := fun h => ih.whole_succ h
  tag := fun expression h => ih.tag_succ expression h
  terms := fun h => ih.terms_succ h
  term := fun undivided h => ih.term_succ undivided h

end Enough

theorem enough (n : Nat) : Enough n := by
  induction n with
  | zero => exact .zero
  | succ n ih => exact ih.succ

/-! ### Operands with a value -/

/-- The only fault is that the levels have run out. -/
theorem classify_error (n : Nat) :
    (∀ {text : List Char} {f : Fault}, classify n text = .error f → f = .endless) ∧
      (∀ {text : List Char} {f : Fault}, collect n text = .error f → f = .endless) ∧
      ∀ {text : List Char} {f : Fault}, collectTerm n text = .error f → f = .endless := by
  -- Induction on the levels, for the three functions at once; with no level left all of them stop.
  induction n with
  | zero =>
    refine ⟨fun {text f} h => ?_, by rintro text f ⟨⟩; rfl, by rintro text f ⟨⟩; rfl⟩
    rw [classify] at h
    split at h
    · cases h
    · cases h
      rfl
  | succ n ih =>
    obtain ⟨whole, terms, term⟩ := ih
    refine ⟨fun {text f} h => ?_, fun {text f} h => ?_, fun {text f} h => ?_⟩
    · rw [classify] at h
      split at h
      · cases h
      · split at h
        · exact terms (map_eq_error h)
        · obtain ⟨part, -, stops⟩ := mapM_error (map_eq_error h)
          exact whole stops
    · rw [collect] at h
      obtain ⟨t, -, stops⟩ := mapM_error (map_eq_error h)
      exact term stops
    · rw [collectTerm] at h
      split at h
      · obtain ⟨arg, -, stops⟩ := mapM_error (map_eq_error h)
        exact whole stops
      · dsimp only at h
        split at h
        · exact terms h
        · exact whole (map_eq_error h)

/-- An operand has the value that it is classified as with any number of levels. -/
theorem value_eq_ok_iff {text : String} {v : Value} :
    value text = .ok v ↔ ∃ n, classify n text.toList = .ok v := by
  refine ⟨fun h => ⟨_, h⟩, fun ⟨n, h⟩ => (enough n).whole h ?_⟩
  rw [String.length_toList]

/-- The text is taken apart without end: no number of levels is enough for it. -/
def IsEndless (text : String) : Prop :=
  ∀ levels, classify levels text.toList = .error .endless

/-- An operand without a value would have none with more levels either. -/
theorem value_eq_error_iff {text : String} {f : Fault} :
    value text = .error f ↔ f = .endless ∧ IsEndless text := by
  constructor
  · intro h
    refine ⟨(classify_error _).1 h, fun n => ?_⟩
    cases classified : classify n text.toList with
    | ok v =>
      rw [value_eq_ok_iff.2 ⟨n, classified⟩] at h
      cases h
    | error e => exact congrArg Except.error ((classify_error n).1 classified)
  · rintro ⟨rfl, endless⟩
    exact endless _

instance (text : String) : Decidable (IsEndless text) :=
  decidable_of_iff ((value text).toOption = none) <| by
    cases given : value text with
    | ok v =>
      refine iff_of_false (by rintro ⟨⟩) fun endless => ?_
      rw [value_eq_error_iff.2 ⟨rfl, endless⟩] at given
      cases given
    | error f => exact iff_of_true rfl (value_eq_error_iff.1 given).2

-- the call of a known function with another group behind it
example : IsEndless "ABS(x)(y)" :=
  classify_stuck {
    undivided := ⟨⟨by decide, by rintro c ⟨⟩; decide, by rintro c ⟨⟩; decide⟩, by decide⟩
    known := by decide +kernel
    unmatched := by decide +kernel }

end Operand

/-! ### Rungs -/

/-- An operand of the instruction is taken apart without end. -/
def Instruction.IsEndless (i : Instruction) : Prop :=
  ∃ x ∈ i.operands, ∃ text ∈ x, Operand.IsEndless text

/-- An operand of an instruction in the rung is taken apart without end. -/
def Rung.IsEndless (r : Rung) : Prop :=
  ∃ i ∈ r.instructions, i.IsEndless

theorem Instruction.usesAt_eq_error_iff {mnemonic : String} {x : Operand × Nat} {f : Fault} :
    usesAt mnemonic x = .error f ↔ f = .endless ∧ ∃ text ∈ x.1, Operand.IsEndless text := by
  obtain ⟨_ | text, index⟩ := x
  · refine iff_of_false (by rintro ⟨⟩) ?_
    rintro ⟨-, text, none, -⟩
    cases none
  · refine bind_pure_eq_error.trans (Operand.value_eq_error_iff.trans (and_congr_right fun _ => ?_))
    constructor
    · exact fun endless => ⟨text, rfl, endless⟩
    · rintro ⟨_, ⟨⟩, endless⟩
      exact endless

theorem Instruction.tagUses_eq_error_iff {i : Instruction} {f : Fault} :
    i.tagUses = .error f ↔ f = .endless ∧ i.IsEndless := by
  have only (x : Operand × Nat) (e : Fault) (h : usesAt i.mnemonic x = .error e) : e = .endless :=
    (usesAt_eq_error_iff.1 h).1
  refine bind_pure_eq_error.trans ((mapM_eq_error_iff only).trans (and_congr_right fun _ => ?_))
  constructor
  · rintro ⟨⟨x, index⟩, mem, stops⟩
    obtain ⟨-, endless⟩ := usesAt_eq_error_iff.1 stops
    exact ⟨x, List.fst_mem_of_mem_zipIdx mem, endless⟩
  · rintro ⟨x, mem, endless⟩
    obtain ⟨index, here⟩ := List.mem_iff_getElem?.1 mem
    exact ⟨(x, index), List.mem_zipIdx_iff_getElem?.2 here, usesAt_eq_error_iff.2 ⟨rfl, endless⟩⟩

/-- The tags in a rung are found unless it has an operand that is taken apart without end. -/
theorem Rung.tagUses_eq_error_iff {r : Rung} {f : Fault} :
    r.tagUses = .error f ↔ f = .endless ∧ r.IsEndless := by
  have only (i : Instruction) (e : Fault) (h : i.tagUses = .error e) : e = .endless :=
    (Instruction.tagUses_eq_error_iff.1 h).1
  refine bind_pure_eq_error.trans ((mapM_eq_error_iff only).trans (and_congr_right fun _ => ?_))
  exact exists_congr fun i => and_congr_right fun _ =>
    Instruction.tagUses_eq_error_iff.trans (and_iff_right rfl)

instance (i : Instruction) : Decidable i.IsEndless :=
  inferInstanceAs (Decidable (∃ x ∈ i.operands, ∃ text ∈ x, Operand.IsEndless text))

instance (r : Rung) : Decidable r.IsEndless :=
  decidable_of_iff (∃ i ∈ Element.seriesInstructions r.elements, i.IsEndless) <| by
    rw [Rung.IsEndless, Rung.instructions_eq]

end Plc.Ladder

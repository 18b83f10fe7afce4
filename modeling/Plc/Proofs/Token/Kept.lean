/-
A token is the same when the text is cut off behind it.

The reader of a token looks at the characters after it, but never so far that it would miss
what is cut off where another token ends.

* `Kept` — what is kept of the characters after a token;
* `read_kept` — the token is read again from its own characters and what is kept.
-/
import Plc.Proofs.Token.Follow

namespace Plc.Lexed

open Text

/-- What is kept of the characters after a token.  The two points of a range are kept together,
and a digit that can only be read as an unknown character is not cut off. -/
structure Kept (kept rest : List Char) : Prop where
  isPrefix : kept <+: rest
  point : kept = ['.'] → ¬['.', '.'] <+: rest
  digit : kept = [] → ∀ c ∈ rest.head?, isDigit c = true → isAsciiDigit c = true

/-- The same token, with the given characters after it. -/
def before (kept : List Char) (x : Lexed) : Lexed := { x with rest := kept }

variable {kept rest : List Char}

theorem head_of_initial (h : kept <+: rest) {p : Char → Bool}
    (hp : ∀ c ∈ rest.head?, p c = false) : ∀ c ∈ kept.head?, p c = false := by
  cases kept with
  | nil => exact fun c hc => by cases hc
  | cons c cs =>
    obtain ⟨more, rfl⟩ := h
    exact hp

theorem head_dropWhile (p : Char → Bool) (cs : List Char) :
    ∀ c ∈ (cs.dropWhile p).head?, p c = false := by
  intro c hc
  have stop := List.head?_dropWhile_not p cs
  rw [Option.mem_def.1 hc] at stop
  simpa using stop

theorem takeWhile_kept {p : Char → Bool} {cs : List Char} (h : kept <+: cs.dropWhile p) :
    (cs.takeWhile p ++ kept).takeWhile p = cs.takeWhile p := by
  rw [takeWhile_append_rest (head_of_initial h (head_dropWhile p cs))]
  exact List.takeWhile_eq_self_iff.2 fun c hc => List.mem_takeWhile_imp hc

theorem dropWhile_kept {p : Char → Bool} {cs : List Char} (h : kept <+: cs.dropWhile p) :
    (cs.takeWhile p ++ kept).dropWhile p = kept := by
  rw [dropWhile_append_rest (head_of_initial h (head_dropWhile p cs)),
    List.dropWhile_eq_nil_iff.2 fun c hc => List.mem_takeWhile_imp hc, List.nil_append]

/-! ### Words -/

/-- What is kept after the end of a time literal does not belong to it either. -/
theorem not_isInTime_kept {c : Char} {kept tail : List Char}
    (h : Kept (c :: kept) (c :: (kept ++ tail))) (stop : isInTime c (kept ++ tail) ≠ true) :
    isInTime c kept ≠ true := by
  intro longer
  -- What comes next decides, and it is the same unless nothing is kept. A point would then need a
  -- second one behind it, which is what `Kept` excludes.
  cases kept with
  | cons e kept => exact stop longer
  | nil =>
    rw [List.nil_append] at h stop
    unfold isInTime at stop longer
    by_cases point : c = '.'
    · subst point
      rw [if_pos rfl] at stop
      cases tail with
      | nil => exact stop rfl
      | cons e tail =>
        have other : e ≠ '.' := by
          rintro rfl
          exact h.point rfl ⟨tail, rfl⟩
        simp [other] at stop
    · rw [if_neg point] at stop longer
      by_cases hyphen : c = '-'
      · rw [if_pos hyphen] at longer
        cases longer
      · rw [if_neg hyphen] at stop longer
        exact stop longer

/-- The last character of a time literal belongs to it also when nothing follows. -/
theorem isInTime_nil {c : Char} {cs : List Char} (inside : isInTime c cs = true)
    (last : (timeBody cs).1 = [])
    (digit : ∀ e ∈ cs.head?, isDigit e = true → isAsciiDigit e = true) : isInTime c [] = true := by
  unfold isInTime at inside ⊢
  by_cases point : c = '.'
  · rw [if_pos point]
    rfl
  rw [if_neg point] at inside ⊢
  by_cases hyphen : c = '-'
  · rw [if_pos hyphen] at inside
    cases cs with
    | nil => cases inside
    | cons e tail =>
      -- a digit after the hyphen would belong to the literal itself
      have ascii := digit e rfl inside
      have noPoint : e ≠ '.' := by
        rintro rfl
        exact absurd ascii (by decide)
      have noHyphen : e ≠ '-' := by
        rintro rfl
        exact absurd ascii (by decide)
      have more : isInTime e tail = true := by simp [isInTime, noPoint, noHyphen, isTimeChar, ascii]
      rw [timeBody, if_pos more] at last
      cases last
  · rwa [if_neg hyphen] at inside ⊢

theorem timeBody_kept (cs : List Char) (h : Kept kept (timeBody cs).2) :
    timeBody ((timeBody cs).1 ++ kept) = ((timeBody cs).1, kept) := by
  induction cs with
  | nil =>
    obtain rfl : kept = [] := List.prefix_nil.1 h.isPrefix
    rfl
  -- Induction on the text. A point or a hyphen belongs to the literal by what comes next, so the
  -- question is whether the next character is still there when less is kept.
  | cons c cs ih =>
    have parts := timeBody_append cs
    rw [timeBody] at h ⊢
    by_cases inside : isInTime c cs = true
    · rw [if_pos inside] at h ⊢
      have same : isInTime c ((timeBody cs).1 ++ kept) = true := by
        -- The next character is of the literal too, or it is the first of the rest.
        cases hb : (timeBody cs).1 with
        | cons e body =>
          rw [hb] at parts
          rw [← parts] at inside
          exact inside
        | nil =>
          rw [hb, List.nil_append] at parts
          rw [parts] at h
          cases kept with
          | cons e more =>
            obtain ⟨tail, rfl⟩ := h.isPrefix
            exact inside
          | nil => exact isInTime_nil inside hb (h.digit rfl)
      show timeBody (c :: ((timeBody cs).1 ++ kept)) = _
      rw [timeBody, if_pos same, ih h]
    · rw [if_neg inside] at h ⊢
      cases kept with
      | nil => rfl
      | cons e kept =>
        obtain ⟨tail, same⟩ := h.isPrefix
        cases same
        show timeBody (c :: kept) = _
        rw [timeBody, if_neg (not_isInTime_kept h inside)]

theorem plainWord_before (d : Dialect) (text rest kept : List Char) :
    plainWord d text kept = (plainWord d text rest).before kept := by
  unfold plainWord
  split
  · rfl
  · rfl

theorem plainWord_text (d : Dialect) (text rest : List Char) :
    (plainWord d text rest).text = text := by
  unfold plainWord
  split <;> rfl

theorem plainWord_rest (d : Dialect) (text rest : List Char) :
    (plainWord d text rest).rest = rest := by
  unfold plainWord
  split <;> rfl

/-- The word with the given characters, before the given others. -/
def wordBefore (d : Dialect) (text rest : List Char) : Lexed :=
  match rest, timeLexeme? (capitals text) with
  | '#' :: cs, some literal =>
    ⟨literal (String.ofList (timeBody cs).1), text ++ '#' :: (timeBody cs).1, (timeBody cs).2⟩
  | rest, _ => plainWord d text rest

theorem word_append (d : Dialect) {text rest : List Char} (all : ∀ c ∈ text, isNameChar c = true)
    (stop : ∀ c ∈ rest.head?, isNameChar c = false) :
    word d (text ++ rest) = wordBefore d text rest := by
  unfold word
  rw [takeWhile_append_rest stop, dropWhile_append_rest stop, List.takeWhile_eq_self_iff.2 all,
    List.dropWhile_eq_nil_iff.2 all, List.nil_append]
  rfl

theorem word_kept (d : Dialect) (cs : List Char) (h : Kept kept (word d cs).rest) :
    word d ((word d cs).text ++ kept) = (word d cs).before kept := by
  have all : ∀ c ∈ cs.takeWhile isNameChar, isNameChar c = true :=
    fun c hc => List.mem_takeWhile_imp hc
  have stop := head_dropWhile isNameChar cs
  have whole := word_append d all stop
  rw [List.takeWhile_append_dropWhile] at whole
  revert h
  rw [whole]
  -- From here on the word and the rest are any characters and the others.
  generalize cs.takeWhile isNameChar = text at *
  generalize cs.dropWhile isNameChar = rest at *
  unfold wordBefore
  split
  · next tail literal known =>
    intro h
    have stop : ∀ c ∈ ('#' :: ((timeBody tail).1 ++ kept)).head?, isNameChar c = false := by
      rintro c ⟨⟩
      decide
    show word d ((text ++ '#' :: (timeBody tail).1) ++ kept) = _
    rw [List.append_assoc, List.cons_append, word_append d all stop]
    simp only [wordBefore, known, timeBody_kept tail h]
    rfl
  -- No time literal was begun; with less behind the word none is begun either.
  · next plain =>
    rw [plainWord_text, plainWord_rest]
    intro h
    rw [word_append d all (head_of_initial h.isPrefix stop), ← plainWord_before]
    unfold wordBefore
    split
    · next tail literal known =>
      obtain ⟨more, rfl⟩ := h.isPrefix
      exact (plain _ _ rfl known).elim
    · rfl

/-! ### Numbers -/

theorem basedNumber_kept {base cs : List Char} {x : Lexed} (h : basedNumber base cs = .ok x)
    (hk : kept <+: cs.dropWhile (isGrouped isHexDigit)) :
    basedNumber base (cs.takeWhile (isGrouped isHexDigit) ++ kept) = .ok (x.before kept) := by
  unfold basedNumber at h ⊢
  obtain ⟨radix, base, h⟩ := bind_eq_ok h
  obtain ⟨lexeme, based, h⟩ := bind_eq_ok h
  cases h
  -- The digits are the same ones, so all that is computed of them is.
  rw [takeWhile_kept hk, dropWhile_kept hk, base]
  dsimp only [bind, Except.bind]
  rw [based]
  rfl

theorem afterPoint_eq (p : Char → Bool) (cs : List Char) :
    (∃ d tail, cs = '.' :: d :: tail ∧ isDigit d = true ∧
      afterPoint p cs = (some ((d :: tail).takeWhile p), (d :: tail).dropWhile p)) ∨
      afterPoint p cs = (none, cs) := by
  unfold afterPoint
  split
  · next d tail =>
    by_cases hd : isDigit d = true
    · exact .inl ⟨d, tail, rfl, hd, if_pos hd⟩
    · exact .inr (if_neg hd)
  · exact .inr rfl

/-- Where nothing comes after a point, nothing does in what is kept. -/
theorem afterPoint_prefix {p : Char → Bool} (h : kept <+: rest)
    (none : afterPoint p rest = (none, rest)) : afterPoint p kept = (.none, kept) := by
  obtain ⟨d, tail, rfl, hd, -⟩ | same := afterPoint_eq p kept
  · obtain ⟨more, rfl⟩ := h
    simp [afterPoint, hd] at none
  · exact same

/-- What comes after a point is found again in what is kept; where nothing is taken there, the digit
that was looked for must be kept too, or be one that would have been taken. -/
theorem afterPoint_kept {p : Char → Bool} (cs : List Char) (h : kept <+: (afterPoint p cs).2)
    (digit : (afterPoint p cs).1 = some [] → kept = [] →
      ∀ c ∈ (afterPoint p cs).2.head?, isDigit c = true → p c = true) :
    afterPoint p (fractionText (afterPoint p cs).1 ++ kept) = ((afterPoint p cs).1, kept) := by
  obtain ⟨d, tail, rfl, hd, same⟩ | same := afterPoint_eq p cs
  · rw [same] at h digit ⊢
    have taken := takeWhile_kept h
    have left := dropWhile_kept h
    dsimp only [fractionText] at h digit ⊢
    -- The digit that is looked for is one of Unicode, those that are taken may be others: so either
    -- some are taken, or the point and the digit are both left behind.
    cases hf : (d :: tail).takeWhile p with
    | cons e f =>
      -- the digits begin with the one after the point
      obtain rfl : d = e := by
        by_cases hg : p d = true
        · rw [List.takeWhile_cons_of_pos hg] at hf
          exact (List.cons.inj hf).1
        · rw [List.takeWhile_cons_of_neg hg] at hf
          cases hf
      rw [hf] at taken left
      rw [List.cons_append] at taken left
      show (if isDigit d then _ else _) = _
      rw [if_pos hd]
      exact congrArg₂ (fun f rest => (some f, rest)) taken left
    | nil =>
      have hg : ¬p d = true := by
        intro hg
        rw [List.takeWhile_cons_of_pos hg] at hf
        cases hf
      rw [hf, List.dropWhile_cons_of_neg hg] at digit
      rw [List.dropWhile_cons_of_neg hg] at h
      cases kept with
      | nil => exact absurd (digit rfl rfl d rfl hd) hg
      | cons e kept =>
        obtain ⟨more, same⟩ := h
        cases same
        show (if isDigit d then _ else _) = _
        rw [if_pos hd, List.takeWhile_cons_of_neg hg, List.dropWhile_cons_of_neg hg]
  · rw [same] at h ⊢
    exact afterPoint_prefix h same

theorem fraction_kept (cs : List Char) (h : kept <+: (fraction cs).2)
    (digit : kept = [] → ∀ c ∈ (fraction cs).2.head?, isDigit c = true → isAsciiDigit c = true) :
    fraction (fractionText (fraction cs).1 ++ kept) = ((fraction cs).1, kept) :=
  afterPoint_kept cs h fun _ none c hc hd => by simp [isGrouped, digit none c hc hd]

theorem exponentSign_prefix (h : kept <+: rest) (hk : kept ≠ []) :
    (exponentSign kept).1 = (exponentSign rest).1 ∧ (exponentSign kept).2 <+: (exponentSign rest).2 := by
  obtain ⟨more, rfl⟩ := h
  cases kept with
  | nil => exact absurd rfl hk
  | cons s kept =>
    simp only [List.cons_append, exponentSign]
    split
    · exact ⟨rfl, more, rfl⟩
    · exact ⟨rfl, more, rfl⟩

theorem exponent_eq (cs : List Char) :
    (∃ e tail, cs = e :: tail ∧ (e == 'e' || e == 'E') = true ∧
      (exponentSign tail).2.head?.any isDigit = true ∧
      exponent cs = (some ⟨e, (exponentSign tail).1,
          (exponentSign tail).2.takeWhile (isGrouped isAsciiDigit)⟩,
        (exponentSign tail).2.dropWhile (isGrouped isAsciiDigit))) ∨
      exponent cs = (none, cs) := by
  unfold exponent
  split
  · next e tail =>
    dsimp only
    by_cases h : ((e == 'e' || e == 'E') && (exponentSign tail).2.head?.any isDigit) = true
    · rw [Bool.and_eq_true] at h
      exact .inl ⟨e, tail, rfl, h.1, h.2, by simp [h]⟩
    · exact .inr (if_neg h)
  · exact .inr rfl

/-- Where no exponent begins, none begins in what is kept. -/
theorem exponent_prefix (h : kept <+: rest) (none : exponent rest = (none, rest)) :
    exponent kept = (.none, kept) := by
  obtain ⟨e, tail, rfl, mark, digit, -⟩ | same := exponent_eq kept
  · obtain ⟨more, rfl⟩ := h
    have some_char : tail ≠ [] := by
      rintro rfl
      cases digit
    obtain ⟨-, longer⟩ := exponentSign_prefix (List.prefix_append tail more) some_char
    have digit' : (exponentSign (tail ++ more)).2.head?.any isDigit = true := by
      obtain ⟨more', same⟩ := longer
      rw [← same]
      cases hs : (exponentSign tail).2 with
      | nil =>
        rw [hs] at digit
        cases digit
      | cons c cs =>
        rw [hs] at digit
        exact digit
    simp only [List.cons_append, exponent, mark, digit', Bool.and_self, if_pos] at none
    cases none
  · exact same

/-- A sign is read again before what comes after it. -/
theorem exponentSign_kept (tail : List Char) {ds : List Char} (some_char : ds ≠ [])
    (same : ds <+: (exponentSign tail).2) :
    exponentSign ((exponentSign tail).1 ++ ds) = ((exponentSign tail).1, ds) := by
  obtain ⟨d, ds, rfl⟩ := List.exists_cons_of_ne_nil some_char
  obtain ⟨more, same⟩ := same
  cases tail with
  | nil => cases same
  | cons s tail =>
    by_cases sign : (s == '+' || s == '-') = true
    · have signed (cs : List Char) : exponentSign (s :: cs) = ([s], cs) := if_pos sign
      rw [signed, List.singleton_append, signed]
    · have plain (cs : List Char) : exponentSign (s :: cs) = ([], s :: cs) := if_neg sign
      rw [plain] at same ⊢
      cases same
      exact plain _

theorem exponent_kept (cs : List Char) (h : kept <+: (exponent cs).2)
    (digit : kept = [] → ∀ c ∈ (exponent cs).2.head?, isDigit c = true → isAsciiDigit c = true) :
    exponent (exponentText (exponent cs).1 ++ kept) = ((exponent cs).1, kept) := by
  obtain ⟨e, tail, rfl, mark, first, same⟩ | same := exponent_eq cs
  · rw [same] at h digit ⊢
    have taken := takeWhile_kept h
    have left := dropWhile_kept h
    dsimp only [exponentText] at h digit ⊢
    generalize hds : (exponentSign tail).2 = ds at *
    obtain ⟨d, ds, rfl⟩ : ∃ d ds', ds = d :: ds' := by
      cases ds with
      | nil => cases first
      | cons d ds => exact ⟨d, ds, rfl⟩
    -- the digits and what is kept after them begin with the first digit
    obtain ⟨tail', same⟩ : ∃ tail', (d :: ds).takeWhile (isGrouped isAsciiDigit) ++ kept =
        d :: tail' := by
      by_cases hg : isGrouped isAsciiDigit d = true
      · rw [List.takeWhile_cons_of_pos hg]
        exact ⟨_, rfl⟩
      · rw [List.dropWhile_cons_of_neg hg] at h digit
        rw [List.takeWhile_cons_of_neg hg]
        cases kept with
        | nil =>
          have ascii := digit rfl d rfl first
          simp [isGrouped, ascii] at hg
        | cons e kept =>
          obtain ⟨more, same⟩ := h
          cases same
          exact ⟨kept, rfl⟩
    have some_char : (d :: ds).takeWhile (isGrouped isAsciiDigit) ++ kept ≠ [] := by
      rw [same]
      exact List.cons_ne_nil _ _
    have longer : (d :: ds).takeWhile (isGrouped isAsciiDigit) ++ kept <+:
        (exponentSign tail).2 := by
      obtain ⟨more, rest⟩ := h
      exact ⟨more, by rw [hds, List.append_assoc, rest, List.takeWhile_append_dropWhile]⟩
    have sign := exponentSign_kept tail some_char longer
    have first' : ((d :: ds).takeWhile (isGrouped isAsciiDigit) ++ kept).head?.any isDigit = true := by
      rw [same]
      exact first
    rw [List.cons_append, List.cons_append, List.append_assoc, exponent, sign]
    simp only [mark, first', Bool.and_self, if_pos, taken, left]
  · rw [same] at h ⊢
    exact exponent_prefix h same

/-- The characters of a decimal number after its digits before the point. -/
def decimalTail (cs : List Char) : List Char :=
  fractionText (fraction cs).1 ++ exponentText (exponent (fraction cs).2).1

theorem decimalTail_append (cs : List Char) :
    decimalTail cs ++ (exponent (fraction cs).2).2 = cs := by
  rw [decimalTail, List.append_assoc, exponent_append, fraction_append]

theorem decimalNumber_parts {whole cs : List Char} {x : Lexed} (h : decimalNumber whole cs = .ok x) :
    x.text = whole ++ decimalTail cs ∧ x.rest = (exponent (fraction cs).2).2 := by
  rw [decimalTail, ← List.append_assoc]
  unfold decimalNumber at h
  dsimp only at h
  split at h
  · cases h
    exact ⟨rfl, rfl⟩
  · split at h
    · obtain ⟨n, -, h⟩ := bind_eq_ok h
      cases h
      exact ⟨rfl, rfl⟩
    · split at h
      · cases h
      · cases h
        exact ⟨rfl, rfl⟩
    · cases h
      exact ⟨rfl, rfl⟩

theorem fraction_decimalTail (cs : List Char) (h : Kept kept (exponent (fraction cs).2).2) :
    fraction (decimalTail cs ++ kept) =
      ((fraction cs).1, exponentText (exponent (fraction cs).2).1 ++ kept) := by
  have parts := exponent_append (fraction cs).2
  rw [decimalTail, List.append_assoc]
  refine fraction_kept cs ?_ ?_
  · obtain ⟨more, same⟩ := h.isPrefix
    exact ⟨more, by rw [List.append_assoc, same, parts]⟩
  -- Where no exponent was read, what is kept begins where the fraction ended.
  · intro none c hc
    rw [List.append_eq_nil_iff] at none
    rw [none.1, List.nil_append] at parts
    rw [← parts] at hc
    exact h.digit none.2 c hc

theorem decimalNumber_kept {whole cs : List Char} {x : Lexed} (h : decimalNumber whole cs = .ok x)
    (hk : Kept kept x.rest) : decimalNumber whole (decimalTail cs ++ kept) = .ok (x.before kept) := by
  obtain ⟨-, rest⟩ := decimalNumber_parts h
  rw [rest] at hk
  have frac := fraction_decimalTail cs hk
  have exp := exponent_kept (fraction cs).2 hk.isPrefix hk.digit
  -- The parts are found again, and the value depends on them alone.
  unfold decimalNumber at h ⊢
  rw [frac]
  dsimp only at h ⊢
  rw [exp]
  dsimp only
  split at h
  · next bad =>
    cases h
    rw [if_pos bad]
    rfl
  · next good =>
    rw [if_neg good]
    split at h
    · next hf he =>
      obtain ⟨n, digits, h⟩ := bind_eq_ok h
      cases h
      rw [hf, he, digits]
      rfl
    · next e he =>
      split at h
      · cases h
      · next digits =>
        cases h
        rw [he]
        simp only [digits]
        rfl
    · next f hf he =>
      cases h
      rw [hf, he]
      rfl

theorem number_kept {cs : List Char} {x : Lexed} (h : number cs = .ok x) (hk : Kept kept x.rest) :
    number (x.text ++ kept) = .ok (x.before kept) := by
  have all : ∀ c ∈ cs.takeWhile (isGrouped isAsciiDigit), isGrouped isAsciiDigit c = true :=
    fun c hc => List.mem_takeWhile_imp hc
  have stop := head_dropWhile (isGrouped isAsciiDigit) cs
  -- The digits in front are found again before everything that is not one of them.
  have again (tail : List Char) (ht : ∀ c ∈ tail.head?, isGrouped isAsciiDigit c = false) :
      (cs.takeWhile (isGrouped isAsciiDigit) ++ tail).takeWhile (isGrouped isAsciiDigit) =
          cs.takeWhile (isGrouped isAsciiDigit) ∧
        (cs.takeWhile (isGrouped isAsciiDigit) ++ tail).dropWhile (isGrouped isAsciiDigit) =
          tail := by
    rw [takeWhile_append_rest ht, dropWhile_append_rest ht, List.takeWhile_eq_self_iff.2 all,
      List.dropWhile_eq_nil_iff.2 all]
    exact ⟨rfl, rfl⟩
  unfold number at h
  dsimp only at h
  split at h
  · next cs' hash =>
    obtain ⟨text, rest⟩ := basedNumber_parts h
    rw [rest] at hk
    have head : ∀ c ∈ ('#' :: (cs'.takeWhile (isGrouped isHexDigit) ++ kept)).head?,
        isGrouped isAsciiDigit c = false := by
      rintro c ⟨⟩
      decide
    -- The number sign ends the digits of the base.
    rw [text, List.append_assoc, List.cons_append, number, (again _ head).1, (again _ head).2]
    exact basedNumber_kept h hk.isPrefix
  · next plain =>
    obtain ⟨text, rest⟩ := decimalNumber_parts h
    have kept' := decimalNumber_kept h hk
    have longer : decimalTail (cs.dropWhile (isGrouped isAsciiDigit)) ++ kept <+:
        cs.dropWhile (isGrouped isAsciiDigit) := by
      obtain ⟨more, same⟩ := hk.isPrefix
      refine ⟨more, ?_⟩
      rw [List.append_assoc, same, rest, decimalTail_append]
    have head := head_of_initial longer stop
    rw [text, List.append_assoc, number, (again _ head).1, (again _ head).2]
    -- A number sign cannot come up, as what is kept begins like the rest did.
    split
    · next tail hash =>
      rw [hash] at longer
      obtain ⟨more, same⟩ := longer
      exact absurd same.symm (plain _)
    · exact kept'

/-! ### Strings and addresses -/

theorem stringBody_stops {quote : Char} {skip : Nat} {cs text value tail : List Char}
    (h : stringBody quote skip cs = some (text, value, tail)) :
    quote ∈ text ∧ ∀ c ∈ tail.head?, c ≠ quote := by
  -- Induction along the text; characters of a unit that is read already are only counted.
  induction cs generalizing skip text value with
  | nil => cases skip <;> exact absurd h (by simp [stringBody])
  | cons c cs ih =>
    cases skip with
    | succ skip =>
      rw [stringBody, Option.map_eq_some_iff] at h
      obtain ⟨⟨text', value', tail'⟩, inner, same⟩ := h
      cases same
      exact ⟨List.mem_cons_of_mem _ (ih inner).1, (ih inner).2⟩
    | zero =>
      rw [stringBody] at h
      cases hu : unit? quote c cs with
      | none =>
        rw [hu] at h
        cases h
        -- No unit begins here only at a quote that stands alone.
        unfold unit? at hu
        split at hu
        · next same =>
          split at hu
          · cases hu
          · next once =>
            refine ⟨same ▸ List.mem_cons_self, ?_⟩
            rintro e he rfl
            exact once he
        · split at hu
          · split at hu <;> cases hu
          · cases hu
      | some unit =>
        rw [hu] at h
        dsimp only at h
        rw [Option.map_eq_some_iff] at h
        obtain ⟨⟨text', value', tail'⟩, inner, same⟩ := h
        cases same
        exact ⟨List.mem_cons_of_mem _ (ih inner).1, (ih inner).2⟩

/-- The inside of a string is read from its own characters. -/
theorem stringBody_text {quote : Char} (hq : isHexDigit quote = false) {skip : Nat}
    {cs text value tail : List Char} (h : stringBody quote skip cs = some (text, value, tail)) :
    stringBody quote skip text = some (text, value, []) := by
  -- Induction along the text. A unit is found again, since the closing quote is still behind it.
  induction cs generalizing skip text value with
  | nil => cases skip <;> exact absurd h (by simp [stringBody])
  | cons c cs ih =>
    cases skip with
    | succ skip =>
      rw [stringBody, Option.map_eq_some_iff] at h
      obtain ⟨⟨text', value', tail'⟩, inner, same⟩ := h
      cases same
      rw [stringBody, ih inner]
      rfl
    | zero =>
      rw [stringBody] at h
      cases hu : unit? quote c cs with
      | none =>
        rw [hu] at h
        cases h
        -- It is a quote with nothing behind it, and so closes the string again.
        have alone : unit? quote c [] = none := by
          unfold unit? at hu ⊢
          split at hu
          · next same =>
            rw [if_pos same]
            rfl
          · split at hu
            · split at hu <;> cases hu
            · cases hu
        rw [stringBody, alone]
      | some unit =>
        rw [hu] at h
        dsimp only at h
        rw [Option.map_eq_some_iff] at h
        obtain ⟨⟨text', value', tail'⟩, inner, same⟩ := h
        cases same
        obtain ⟨closes, stops⟩ := stringBody_stops inner
        have same : unit? quote c text' = some unit := by
          rw [← hu, ← stringBody_append inner]
          exact (unit?_append_rest hq stops (.inr closes)).symm
        rw [stringBody, same]
        dsimp only
        rw [ih inner]
        rfl

theorem stringLiteral_kept {quote : Char} (hq : isHexDigit quote = false) (cs : List Char)
    (h : kept <+: (stringLiteral quote cs).rest) :
    ∃ text, (stringLiteral quote cs).text = quote :: text ∧
      stringLiteral quote (text ++ kept) = (stringLiteral quote cs).before kept := by
  unfold stringLiteral at *
  split
  · next text value tail hs =>
    rw [hs] at h
    obtain ⟨-, stops⟩ := stringBody_stops hs
    -- What is kept begins like the rest, and so not with a quote.
    have stops' : ∀ c ∈ kept.head?, c ≠ quote := by
      intro c hc same
      have := head_of_initial h (p := (· == quote)) (fun e he => by simpa using stops e he) c hc
      simp [same] at this
    refine ⟨text, rfl, ?_⟩
    rw [stringBody_append_rest hq stops' (stringBody_text hq hs)]
    rfl
  · next hs =>
    rw [hs] at h
    obtain rfl : kept = [] := List.prefix_nil.1 h
    refine ⟨cs, rfl, ?_⟩
    rw [List.append_nil, hs]
    rfl

theorem upTo?_kept {close : Char} {cs inner tail : List Char}
    (h : upTo? close cs = some (inner, tail)) (kept : List Char) :
    upTo? close (inner ++ close :: kept) = some (inner, kept) := by
  unfold upTo? at h
  split at h
  · next c _ hd =>
    cases h
    have stop : ∀ c ∈ (close :: kept).head?, (c != close) = false := by
      rintro c ⟨⟩
      simp
    have all : ∀ c ∈ cs.takeWhile (· != close), (c != close) = true :=
      fun c hc => List.mem_takeWhile_imp (p := (· != close)) hc
    unfold upTo?
    rw [takeWhile_append_rest stop, dropWhile_append_rest stop, List.takeWhile_eq_self_iff.2 all,
      List.dropWhile_eq_nil_iff.2 all]
    rfl
  · cases h

theorem quotedName_kept (cs : List Char) (h : kept <+: (quotedName cs).rest) :
    ∃ text, (quotedName cs).text = '"' :: text ∧
      quotedName (text ++ kept) = (quotedName cs).before kept := by
  unfold quotedName at *
  split
  · next name tail hs =>
    refine ⟨name ++ ['"'], rfl, ?_⟩
    rw [List.append_assoc, List.singleton_append, upTo?_kept hs]
    rfl
  · next hs =>
    rw [hs] at h
    obtain rfl : kept = [] := List.prefix_nil.1 h
    refine ⟨cs, rfl, ?_⟩
    rw [List.append_nil, hs]
    rfl

theorem pragma_kept (cs : List Char) (h : kept <+: (pragma cs).rest) :
    ∃ text, (pragma cs).text = '\x7b' :: text ∧
      pragma (text ++ kept) = (pragma cs).before kept := by
  unfold pragma at *
  split
  · next body tail hs =>
    refine ⟨body ++ ['\x7d'], rfl, ?_⟩
    rw [List.append_assoc, List.singleton_append, upTo?_kept hs]
    rfl
  · next hs =>
    rw [hs] at h
    obtain rfl : kept = [] := List.prefix_nil.1 h
    refine ⟨cs, rfl, ?_⟩
    rw [List.append_nil, hs]
    rfl

theorem addressTail_kept (lead : List Char) (area : Address.Area) (size : Address.Size)
    (cs : List Char) {x : Lexed} (h : addressTail lead area size cs = .ok x)
    (hk : kept <+: x.rest) :
    ∃ text, x.text = lead ++ text ∧
      addressTail lead area size (text ++ kept) = .ok (x.before kept) := by
  unfold addressTail at h
  dsimp only at h
  split at h
  · next none =>
    cases h
    refine ⟨cs.takeWhile isNameChar, rfl, ?_⟩
    have longer : cs.takeWhile isNameChar ++ kept <+: cs := by
      obtain ⟨more, same⟩ := hk
      exact ⟨more, by rw [List.append_assoc, same, List.takeWhile_append_dropWhile]⟩
    have head : ∀ c ∈ cs.head?, isAsciiDigit c = false := by
      cases cs with
      | nil => exact fun c hc => by cases hc
      | cons c cs =>
        rintro c ⟨⟩
        by_contra hc
        rw [Bool.not_eq_false] at hc
        simp [List.takeWhile_cons_of_pos hc] at none
    have none' : (cs.takeWhile isNameChar ++ kept).takeWhile isAsciiDigit = [] := by
      have := takeWhile_append_rest (head_of_initial longer head) []
      exact this
    unfold addressTail
    simp only [none', List.isEmpty_nil, if_pos, takeWhile_kept hk, dropWhile_kept hk]
    rfl
  · next some_digit =>
    obtain ⟨bit, bits, h⟩ := bind_eq_ok h
    obtain ⟨byte, digits, h⟩ := bind_eq_ok h
    cases h
    refine ⟨cs.takeWhile isAsciiDigit ++ fractionText _, List.append_assoc _ _ _, ?_⟩
    have tail := afterPoint_append isAsciiDigit (cs.dropWhile isAsciiDigit)
    have again := afterPoint_kept (cs.dropWhile isAsciiDigit) hk fun none => by
      -- no bit is read from no digits
      rw [none] at bits
      cases bits
    have longer : fractionText (afterPoint isAsciiDigit (cs.dropWhile isAsciiDigit)).1 ++ kept <+:
        cs.dropWhile isAsciiDigit := by
      obtain ⟨more, same⟩ := hk
      exact ⟨more, by rw [List.append_assoc, same, tail]⟩
    unfold addressTail
    rw [List.append_assoc, takeWhile_kept longer, dropWhile_kept longer, again]
    dsimp only
    rw [if_neg some_digit, bits]
    dsimp only [bind, Except.bind]
    rw [digits]
    rfl

theorem address_kept (cs : List Char) {x : Lexed} (h : address cs = .ok x) (hk : kept <+: x.rest) :
    ∃ text, x.text = '%' :: text ∧ address (text ++ kept) = .ok (x.before kept) := by
  unfold address at h
  split at h
  · next a cs' =>
    split at h
    · next area ha =>
      split at h
      · next s cs'' =>
        split at h
        · next size hs =>
          -- An area and a size
          obtain ⟨text, whole, same⟩ := addressTail_kept _ _ _ _ h hk
          refine ⟨a :: s :: text, whole, ?_⟩
          simp only [address, List.cons_append, ha, hs]
          exact same
        · next hs =>
          obtain ⟨text, whole, same⟩ := addressTail_kept _ _ _ _ h hk
          refine ⟨a :: text, whole, ?_⟩
          -- An area without a size. It has to be seen that what is kept does not begin with a size
          -- either.
          have longer : text ++ kept <+: s :: cs'' := by
            obtain ⟨more, rest⟩ := hk
            have parts := (addressTail_splits _ _ _ _ (by simp) x h).append
            rw [whole, List.append_assoc, List.append_cancel_left_eq] at parts
            exact ⟨more, by rw [List.append_assoc, rest, parts]⟩
          rw [List.cons_append]
          revert same longer
          cases text ++ kept with
          | nil =>
            intro same longer
            simp only [address, ha]
            exact same
          | cons e tail' =>
            intro same longer
            obtain ⟨more, rest⟩ := longer
            cases rest
            simp only [address, ha, hs]
            exact same
      -- The text ends behind the area, so nothing can be kept.
      · obtain ⟨text, whole, same⟩ := addressTail_kept _ _ _ _ h hk
        have parts := (addressTail_splits _ _ _ _ (by simp) x h).append
        rw [whole, List.append_assoc, List.append_cancel_left_eq, List.append_eq_nil_iff] at parts
        obtain ⟨rfl, none⟩ := parts
        rw [none] at hk
        obtain rfl : kept = [] := List.prefix_nil.1 hk
        refine ⟨[a], whole, ?_⟩
        simp only [address, List.append_nil, ha]
        exact same
    -- The percent sign stands alone.
    · next ha =>
      cases h
      refine ⟨[], rfl, ?_⟩
      cases kept with
      | nil => rfl
      | cons e kept =>
        obtain ⟨more, same⟩ := hk
        cases same
        simp only [address, List.nil_append, ha]
        rfl
  · cases h
    obtain rfl : kept = [] := List.prefix_nil.1 hk
    exact ⟨[], rfl, rfl⟩

/-! ### One token -/

theorem mark_kept (d : Dialect) (c : Char) (cs : List Char) (h : kept <+: (mark d c cs).rest) :
    ∃ text, (mark d c cs).text = c :: text ∧
      mark d c (text ++ kept) = (mark d c cs).before kept := by
  have parts := (mark_splits d c cs).append
  -- no more of the text is kept than there was
  have shorter {text : List Char} (ht : (mark d c cs).text = c :: text) :
      c :: (text ++ kept) <+: c :: cs := by
    obtain ⟨more, same⟩ := h
    refine ⟨more, ?_⟩
    rw [← parts, ht, List.cons_append, List.append_assoc, same]
    rfl
  -- The first mark that fits is taken. None before it fits when less is kept, since a mark that
  -- fits there fitted the whole text.
  cases hf : (marks d).find? (·.1.isPrefixOf (c :: cs)) with
  | none =>
    have same : mark d c cs = ⟨.unknown, [c], cs⟩ := by
      unfold mark
      rw [hf]
    rw [same] at shorter h ⊢
    refine ⟨[], rfl, ?_⟩
    have none : (marks d).find? (·.1.isPrefixOf (c :: kept)) = none := by
      rw [List.find?_eq_none] at hf ⊢
      intro m hm longer
      refine hf m hm ?_
      rw [List.isPrefixOf_iff_prefix] at longer ⊢
      exact longer.trans (shorter rfl)
    rw [List.nil_append, mark, none]
    rfl
  | some m =>
    obtain ⟨symbol, lexeme⟩ := m
    have same : mark d c cs = ⟨lexeme, symbol, (c :: cs).drop symbol.length⟩ := by
      unfold mark
      rw [hf]
    have found := List.find?_some hf
    rw [List.isPrefixOf_iff_prefix] at found
    have some_char : symbol ≠ [] := by
      have := (mark_splits d c cs).text_ne_nil
      rwa [same] at this
    obtain ⟨e, text, rfl⟩ := List.exists_cons_of_ne_nil some_char
    obtain ⟨more, first⟩ := found
    cases first
    rw [same] at shorter h ⊢
    refine ⟨text, rfl, ?_⟩
    have again : (marks d).find? (·.1.isPrefixOf (c :: (text ++ kept))) =
        some (c :: text, lexeme) := by
      rw [List.find?_eq_some_iff_append] at hf ⊢
      obtain ⟨-, before, after, listed, others⟩ := hf
      refine ⟨?_, before, after, listed, fun m hm => ?_⟩
      · rw [List.isPrefixOf_iff_prefix]
        exact ⟨kept, rfl⟩
      · have other := others m hm
        rw [Bool.not_eq_true', ← Bool.not_eq_true, List.isPrefixOf_iff_prefix] at other ⊢
        exact fun longer => other (longer.trans (shorter rfl))
    rw [mark, again]
    simp [before]

/-- A token is read again from its own characters and what is kept of those after it. -/
theorem read_kept {d : Dialect} {c : Char} {cs : List Char} {x : Lexed} (h : read d c cs = .ok x)
    (hk : Kept kept x.rest) :
    ∃ text, x.text = c :: text ∧ read d c (text ++ kept) = .ok (x.before kept) := by
  obtain ⟨some_char, parts⟩ := read_splits d c cs x h
  obtain ⟨e, text, ht⟩ := List.exists_cons_of_ne_nil some_char
  obtain rfl : e = c := by
    rw [ht] at parts
    exact (List.cons.inj parts).1
  -- The first character decides what the token is, and it is the first one again; so the cases are
  -- those of the reading, each settled by the lemma for its kind of token.
  unfold read at h ⊢
  split at h
  · next name =>
    cases h
    refine ⟨text, ht, ?_⟩
    rw [if_pos name, ← word_kept d _ hk, ht]
    rfl
  next name =>
  split at h
  · next digit =>
    refine ⟨text, ht, ?_⟩
    rw [if_neg name, if_pos digit, ← number_kept h hk, ht]
    rfl
  next digit =>
  simp only [if_neg name, if_neg digit]
  split at h
  · next narrow =>
    subst narrow
    cases h
    obtain ⟨text, ht, same⟩ := stringLiteral_kept (by decide) cs hk.isPrefix
    exact ⟨text, ht, congrArg Except.ok same⟩
  next narrow =>
  simp only [if_neg narrow]
  split at h
  · next wide =>
    subst wide
    cases h
    simp only [if_pos]
    split at hk
    · next quoted =>
      simp only [if_pos quoted]
      obtain ⟨text, ht, same⟩ := quotedName_kept cs hk.isPrefix
      exact ⟨text, ht, congrArg Except.ok same⟩
    · next quoted =>
      simp only [if_neg quoted]
      obtain ⟨text, ht, same⟩ := stringLiteral_kept (by decide) cs hk.isPrefix
      exact ⟨text, ht, congrArg Except.ok same⟩
  next wide =>
  simp only [if_neg wide]
  split at h
  · next percent =>
    subst percent
    obtain ⟨text, ht, same⟩ := address_kept cs h hk.isPrefix
    exact ⟨text, ht, same⟩
  next percent =>
  simp only [if_neg percent]
  split at h
  · next brace =>
    have same := brace
    rw [Bool.and_eq_true, decide_eq_true_eq] at same
    obtain ⟨rfl, -⟩ := same
    cases h
    obtain ⟨text, ht, same⟩ := pragma_kept cs hk.isPrefix
    exact ⟨text, ht, (if_pos brace).trans (congrArg Except.ok same)⟩
  · next brace =>
    cases h
    obtain ⟨text, ht, same⟩ := mark_kept d _ cs hk.isPrefix
    exact ⟨text, ht, (if_neg brace).trans (congrArg Except.ok same)⟩

end Plc.Lexed

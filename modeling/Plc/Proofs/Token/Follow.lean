/-
What may stand after a token without changing it.

A token is as long as it can be, so the characters after it have a say.  Those that
the layout of a program puts there leave it as it is.

* `Ends` — what may follow a literal: nothing, a blank, or a mark that closes something;
* `Apart` — what may follow a name, an address or a number;
* `NameEnds` — what does not go on with a name;
* `number_append_rest`, `word_append_rest`, `stringBody_append_rest`, `address_append_rest`,
  `upTo?_append_rest`, `mark_append_rest` — the readers of tokens take no notice of it;
* `read_append` — nor does the reading of any token that is well formed;
* `read_append_rest` — nor does that of a constant or an address.
-/
import Plc.Proofs.Token.Split

namespace Plc

/-! ### Blanks, one by one -/

namespace Text

/-- All blank characters. -/
def blanks : List Char :=
  ['\t', '\n', '\x0b', '\x0c', '\r', '\x1c', '\x1d', '\x1e', '\x1f', ' ', '\u0085', '\u00a0', '\u1680',
    '\u2000', '\u2001', '\u2002', '\u2003', '\u2004', '\u2005', '\u2006', '\u2007', '\u2008', '\u2009',
    '\u200a', '\u2028', '\u2029', '\u202f', '\u205f', '\u3000']

theorem mem_blanks {c : Char} (h : isBlank c = true) : c ∈ blanks := by
  have listed : c.toNat ∈ [9, 10, 11, 12, 13, 28, 29, 30, 31, 32, 0x85, 0xA0, 0x1680, 0x2000, 0x2001,
      0x2002, 0x2003, 0x2004, 0x2005, 0x2006, 0x2007, 0x2008, 0x2009, 0x200A, 0x2028, 0x2029, 0x202F,
      0x205F, 0x3000] := by
    simp only [isBlank, Bool.or_eq_true, Bool.and_eq_true, decide_eq_true_eq, beq_iff_eq] at h
    simp only [List.mem_cons, List.not_mem_nil, or_false]
    omega
  have all : ∀ n ∈ [9, 10, 11, 12, 13, 28, 29, 30, 31, 32, 0x85, 0xA0, 0x1680, 0x2000, 0x2001,
      0x2002, 0x2003, 0x2004, 0x2005, 0x2006, 0x2007, 0x2008, 0x2009, 0x200A, 0x2028, 0x2029, 0x202F,
      0x205F, 0x3000], Char.ofNat n ∈ blanks := by decide
  have found := all c.toNat listed
  rwa [Char.ofNat_toNat] at found

/-- A blank is no digit. -/
theorem not_isDigit_of_isBlank {c : Char} (h : isBlank c = true) : isDigit c = false := by
  have all : blanks.all (fun c => !isDigit c) = true := by decide
  simpa using List.all_eq_true.1 all c (mem_blanks h)

/-! ### Blanks at the ends -/

theorem trimEnd_append_blanks (cs : List Char) :
    ∃ blanks, cs = trimEnd cs ++ blanks ∧ ∀ c ∈ blanks, isBlank c = true := by
  refine ⟨(cs.reverse.takeWhile isBlank).reverse, ?_, fun c hc => ?_⟩
  · rw [trimEnd, ← List.reverse_append, List.takeWhile_append_dropWhile, List.reverse_reverse]
  · exact List.mem_takeWhile_imp (List.mem_reverse.1 hc)

theorem trim_sublist (cs : List Char) : (trim cs).Sublist cs := by
  have back : (trimEnd (trimStart cs)).Sublist (trimStart cs) := by
    rw [trimEnd, ← List.reverse_sublist, List.reverse_reverse]
    exact List.dropWhile_sublist _
  exact back.trans (List.dropWhile_sublist _)

/-- What begins with no blank is not left out as a whole. -/
theorem trim_ne_nil {c : Char} {more : List Char} (blank : isBlank c = false) :
    trim (c :: more) ≠ [] := by
  obtain ⟨blanks, parts, all⟩ := trimEnd_append_blanks (c :: more)
  rw [trim, trimStart_eq_self_iff.2 (by simpa using blank)]
  intro none_
  rw [none_, List.nil_append] at parts
  rw [all c (parts ▸ List.mem_cons_self)] at blank
  cases blank

end Text

namespace Lexed

open Text

/-! ### What may follow -/

/-- The characters that may stand right after a literal. -/
def closers : List Char := blanks ++ [',', ')', ']', ';']

/-- Nothing follows, or a character that may stand right after a literal. -/
def Ends (rest : List Char) : Prop :=
  ∀ c ∈ rest.head?, c ∈ closers

/-- The characters that may stand right after a name, the point aside. -/
def followers : List Char := closers ++ [':', '(', '[', '^']

/-- Nothing follows, or a character that may stand right after a name; no digit comes after a
point. -/
inductive Apart : List Char → Prop
  | nil : Apart []
  | cons {c : Char} {cs : List Char} (h : c ∈ followers) : Apart (c :: cs)
  | range (cs : List Char) : Apart ('.' :: '.' :: cs)
  | member {c : Char} {cs : List Char} (h : isNameStart c = true) : Apart ('.' :: c :: cs)

theorem Ends.apart {rest : List Char} (h : Ends rest) : Apart rest := by
  cases rest with
  | nil => exact .nil
  | cons c cs => exact .cons (List.mem_append_left _ (h c rfl))

theorem Ends.head {rest : List Char} (h : Ends rest) {p : Char → Bool}
    (hp : closers.any p = false) : ∀ c ∈ rest.head?, p c = false := by
  intro c hc
  have other := List.any_eq_false.1 hp c (h c hc)
  rwa [Bool.not_eq_true] at other

theorem Apart.head {rest : List Char} (h : Apart rest) {p : Char → Bool}
    (hp : ('.' :: followers).any p = false) : ∀ c ∈ rest.head?, p c = false := by
  have hp (c : Char) (hc : c ∈ '.' :: followers) : p c = false := by
    have other := List.any_eq_false.1 hp c hc
    rwa [Bool.not_eq_true] at other
  cases h with
  | nil => exact fun c hc => by cases hc
  | cons h =>
    rintro c ⟨⟩
    exact hp _ (List.mem_cons_of_mem _ h)
  | range | member =>
    rintro c ⟨⟩
    exact hp '.' List.mem_cons_self

/-! ### Runs of characters -/

theorem takeWhile_append_rest {p : Char → Bool} {rest : List Char}
    (h : ∀ c ∈ rest.head?, p c = false) (cs : List Char) :
    (cs ++ rest).takeWhile p = cs.takeWhile p := by
  have stop : rest.takeWhile p = [] := by
    cases rest with
    | nil => rfl
    | cons c cs => exact List.takeWhile_cons_of_neg (by simp [h c rfl])
  induction cs with
  | nil => exact stop
  | cons c cs ih =>
    cases hc : p c with
    | true => rw [List.cons_append, List.takeWhile_cons_of_pos hc, ih, List.takeWhile_cons_of_pos hc]
    | false =>
      have hc : ¬p c = true := by simp [hc]
      rw [List.cons_append, List.takeWhile_cons_of_neg hc, List.takeWhile_cons_of_neg hc]

theorem dropWhile_append_rest {p : Char → Bool} {rest : List Char}
    (h : ∀ c ∈ rest.head?, p c = false) (cs : List Char) :
    (cs ++ rest).dropWhile p = cs.dropWhile p ++ rest := by
  have stop : rest.dropWhile p = rest := by
    cases rest with
    | nil => rfl
    | cons c cs => exact List.dropWhile_cons_of_neg (by simp [h c rfl])
  induction cs with
  | nil => exact stop
  | cons c cs ih =>
    cases hc : p c with
    | true => rw [List.cons_append, List.dropWhile_cons_of_pos hc, ih, List.dropWhile_cons_of_pos hc]
    | false =>
      have hc : ¬p c = true := by simp [hc]
      rw [List.cons_append, List.dropWhile_cons_of_neg hc, List.dropWhile_cons_of_neg hc,
        List.cons_append]

/-- A run of characters of one kind is taken whole where no more of them follow. -/
theorem takeWhile_run {p : Char → Bool} {cs rest : List Char} (all : ∀ c ∈ cs, p c = true)
    (h : ∀ c ∈ rest.head?, p c = false) : (cs ++ rest).takeWhile p = cs := by
  rw [takeWhile_append_rest h]
  exact List.takeWhile_eq_self_iff.2 all

theorem dropWhile_run {p : Char → Bool} {cs rest : List Char} (all : ∀ c ∈ cs, p c = true)
    (h : ∀ c ∈ rest.head?, p c = false) : (cs ++ rest).dropWhile p = rest := by
  rw [dropWhile_append_rest h, List.dropWhile_eq_nil_iff.2 all]
  rfl

/-- The same token, with more characters after it. -/
def followedBy (rest : List Char) (x : Lexed) : Lexed :=
  { x with rest := x.rest ++ rest }

/-! ### Numbers -/

theorem toNat_of_isNameStart {c : Char} (h : isNameStart c = true) :
    65 ≤ c.toNat ∧ c.toNat ≤ 122 := by
  simp only [isNameStart, Bool.or_eq_true, beq_iff_eq, Bool.and_eq_true, decide_eq_true_eq] at h
  obtain (rfl | ⟨low, high⟩) | ⟨low, high⟩ := h
  · decide
  · exact ⟨Nat.le_trans (by decide) (show 97 ≤ c.toNat from low), high⟩
  · exact ⟨low, Nat.le_trans (show c.toNat ≤ 90 from high) (by decide)⟩

theorem not_isAsciiDigit_of_isNameStart {c : Char} (h : isNameStart c = true) :
    isAsciiDigit c = false := by
  obtain ⟨low, -⟩ := toNat_of_isNameStart h
  rw [isAsciiDigit, Bool.and_eq_false_iff, decide_eq_false_iff_not, decide_eq_false_iff_not]
  right
  intro (le : c.toNat ≤ 57)
  omega

theorem not_isDigit_of_isNameStart {c : Char} (h : isNameStart c = true) : isDigit c = false := by
  obtain ⟨-, high⟩ := toNat_of_isNameStart h
  have small : c.toNat < 128 := by omega
  have large : ¬128 ≤ c.toNat := by omega
  simp [isDigit, isDecimal, decimalValue?, not_isAsciiDigit_of_isNameStart h, small, large]

/-- A point before what follows begins no fraction. -/
theorem Apart.not_isDigit {rest : List Char} {c : Char} {cs : List Char} (h : Apart rest)
    (same : rest = '.' :: c :: cs) : isDigit c = false := by
  cases h with
  | nil => cases same
  | cons h =>
    cases same
    exact absurd h (by decide)
  | range =>
    cases same
    decide
  | member h =>
    cases same
    exact not_isDigit_of_isNameStart h

variable {rest : List Char}

theorem afterPoint_append_rest (h : Apart rest) {p : Char → Bool} (hp : ∀ c ∈ rest.head?, p c = false)
    (cs : List Char) :
    afterPoint p (cs ++ rest) = ((afterPoint p cs).1, (afterPoint p cs).2 ++ rest) := by
  have digit : ∀ c ∈ rest.head?, isDigit c = false := h.head (by decide)
  -- A point is looked at together with the character behind it, which may be the first of the rest;
  -- so the cases are on two characters.
  cases cs with
  | nil =>
    show afterPoint p rest = (none, rest)
    unfold afterPoint
    split
    · rw [h.not_isDigit rfl]
      rfl
    · rfl
  | cons c cs =>
    by_cases hc : c = '.'
    · subst hc
      cases cs with
      | nil =>
        cases rest with
        | nil => rfl
        | cons d ds => simp [afterPoint, digit d rfl]
      | cons d cs =>
        show (if isDigit d then _ else _) = _
        rw [afterPoint]
        split
        · have taken := takeWhile_append_rest hp (d :: cs)
          have left := dropWhile_append_rest hp (d :: cs)
          rw [List.cons_append] at taken left
          show (some ((d :: (cs ++ rest)).takeWhile _), (d :: (cs ++ rest)).dropWhile _) = _
          rw [taken, left]
        · rfl
    · simp [afterPoint, hc]

theorem fraction_append_rest (h : Apart rest) (cs : List Char) :
    fraction (cs ++ rest) = ((fraction cs).1, (fraction cs).2 ++ rest) :=
  afterPoint_append_rest h (h.head (by decide)) cs

theorem exponentSign_append_rest (h : Apart rest) (cs : List Char) :
    exponentSign (cs ++ rest) = ((exponentSign cs).1, (exponentSign cs).2 ++ rest) := by
  have sign : ∀ c ∈ rest.head?, (c == '+' || c == '-') = false := h.head (by decide)
  cases cs with
  | nil =>
    cases rest with
    | nil => rfl
    | cons c cs => simp [exponentSign, sign c rfl]
  | cons c cs =>
    simp only [List.cons_append, exponentSign]
    split
    · rfl
    · rfl

theorem exponent_append_rest (h : Apart rest) (cs : List Char) :
    exponent (cs ++ rest) = ((exponent cs).1, (exponent cs).2 ++ rest) := by
  have grouped : ∀ c ∈ rest.head?, isGrouped isAsciiDigit c = false := h.head (by decide)
  have digit : ∀ c ∈ rest.head?, isDigit c = false := h.head (by decide)
  have mark : ∀ c ∈ rest.head?, (c == 'e' || c == 'E') = false := h.head (by decide)
  cases cs with
  | nil =>
    cases rest with
    | nil => rfl
    | cons c cs => simp [exponent, mark c rfl]
  | cons e cs =>
    have same (ds : List Char) : (ds ++ rest).head?.any isDigit = ds.head?.any isDigit := by
      cases ds with
      | nil =>
        cases rest with
        | nil => rfl
        | cons c cs => exact digit c rfl
      | cons d ds => rfl
    simp only [List.cons_append, exponent, exponentSign_append_rest h, same]
    split
    · rw [takeWhile_append_rest grouped, dropWhile_append_rest grouped]
    · rfl

theorem basedNumber_append_rest (h : Apart rest) (base cs : List Char) :
    basedNumber base (cs ++ rest) = (basedNumber base cs).map (followedBy rest) := by
  have grouped : ∀ c ∈ rest.head?, isGrouped isHexDigit c = false := h.head (by decide)
  unfold basedNumber
  simp only [takeWhile_append_rest grouped, dropWhile_append_rest grouped]
  cases decimal base with
  | error f => rfl
  | ok radix =>
    dsimp only [bind, Except.bind]
    cases basedLexeme radix ((cs.takeWhile (isGrouped isHexDigit)).filter (· != '_')) with
    | error f | ok lexeme => rfl

theorem decimalNumber_append_rest (h : Apart rest) (whole cs : List Char) :
    decimalNumber whole (cs ++ rest) = (decimalNumber whole cs).map (followedBy rest) := by
  unfold decimalNumber
  rw [fraction_append_rest h]
  dsimp only
  rw [exponent_append_rest h]
  dsimp only
  split
  · rfl
  · split
    · cases decimal whole with
      | error f | ok n => rfl
    · split
      · rfl
      · rfl
    · rfl

/-- A number ends where it did before. -/
theorem number_append_rest (h : Apart rest) (cs : List Char) :
    number (cs ++ rest) = (number cs).map (followedBy rest) := by
  have grouped : ∀ c ∈ rest.head?, isGrouped isAsciiDigit c = false := h.head (by decide)
  have hash : ∀ c ∈ rest.head?, (c == '#') = false := h.head (by decide)
  unfold number
  rw [takeWhile_append_rest grouped, dropWhile_append_rest grouped]
  generalize cs.takeWhile (isGrouped isAsciiDigit) = whole
  cases cs.dropWhile (isGrouped isAsciiDigit) with
  | nil =>
    have plain := decimalNumber_append_rest h whole []
    dsimp only [List.nil_append] at plain ⊢
    rw [← plain]
    split
    · next hrest => exact absurd (hash '#' rfl) (by decide)
    · rfl
  | cons c tail =>
    by_cases hc : c = '#'
    · subst hc
      exact basedNumber_append_rest h whole tail
    · have plain := decimalNumber_append_rest h whole (c :: tail)
      simpa [hc] using plain

/-! ### Words -/

theorem isInTime_append_rest (h : Ends rest) (c : Char) (cs : List Char) :
    isInTime c (cs ++ rest) = isInTime c cs := by
  cases cs with
  | cons d ds => rfl
  | nil =>
    cases rest with
    | nil => rfl
    | cons d ds =>
      have point : (some d != some '.') = true := by
        have := h.head (p := (· == '.')) (by decide) d rfl
        simpa using this
      have digit : isDigit d = false := h.head (by decide) d rfl
      unfold isInTime
      split
      · exact point
      · split
        · exact digit
        · rfl

theorem timeBody_append_rest (h : Ends rest) (cs : List Char) :
    timeBody (cs ++ rest) = ((timeBody cs).1, (timeBody cs).2 ++ rest) := by
  induction cs with
  | nil =>
    cases rest with
    | nil => rfl
    | cons c cs =>
      have other : isTimeChar c = false ∧ c ≠ '.' ∧ c ≠ '-' := by
        have := h.head (p := fun c => isTimeChar c || c == '.' || c == '-') (by decide) c rfl
        simpa [and_assoc] using this
      show timeBody (c :: cs) = ([], c :: cs)
      simp [timeBody, isInTime, other]
  | cons c cs ih =>
    rw [List.cons_append, timeBody, timeBody, isInTime_append_rest h, ih]
    split
    · rfl
    · rfl

theorem plainWord_append_rest (d : Dialect) (text cs rest : List Char) :
    plainWord d text (cs ++ rest) = (plainWord d text cs).followedBy rest := by
  unfold plainWord
  split
  · rfl
  · rfl

/-- The token is a time or a date. -/
def isTime : Lexeme → Bool
  | .duration _ | .date _ | .timeOfDay _ | .dateAndTime _ => true
  | _ => false

theorem isTime_of_timeLexeme? {text : String} {literal : String → Lexeme}
    (h : timeLexeme? text = some literal) (body : String) : isTime (literal body) = true := by
  unfold timeLexeme? at h
  repeat' split at h
  all_goals cases h
  all_goals rfl

/-- A name, a reserved word or a time literal ends where it did before.  Points, colons and
hyphens may go on with a time literal only. -/
theorem word_append_rest (d : Dialect) (apart : Apart rest) (cs : List Char)
    (ends : isTime (word d cs).lexeme = true → Ends rest) :
    word d (cs ++ rest) = (word d cs).followedBy rest := by
  have letter : ∀ c ∈ rest.head?, isNameChar c = false := apart.head (by decide)
  have hash : ∀ c ∈ rest.head?, (c == '#') = false := apart.head (by decide)
  have plain := plainWord_append_rest d (cs.takeWhile isNameChar) (cs.dropWhile isNameChar) rest
  unfold word at *
  rw [takeWhile_append_rest letter, dropWhile_append_rest letter]
  revert plain ends
  generalize cs.takeWhile isNameChar = text
  -- Nothing is left behind the word, or the character there decides as it did.
  cases cs.dropWhile isNameChar with
  | nil =>
    intro _ plain
    dsimp only [List.nil_append] at plain ⊢
    rw [← plain]
    split
    · exact absurd (hash '#' rfl) (by decide)
    · rfl
  | cons c tail =>
    intro ends plain
    dsimp only at ends ⊢
    cases known : timeLexeme? (capitals text) with
    | none => simpa using plain
    | some literal =>
      by_cases hc : c = '#'
      · subst hc
        rw [known] at ends
        have ends := ends (isTime_of_timeLexeme? known _)
        simp [timeBody_append_rest ends, followedBy]
      · simpa [hc] using plain

/-- What may follow a name: nothing that would make it longer. -/
def NameEnds (rest : List Char) : Prop :=
  ∀ c ∈ rest.head?, isNameChar c = false ∧ c ≠ '#'

theorem Apart.nameEnds {rest : List Char} (h : Apart rest) : NameEnds rest := by
  intro c hc
  have hash : (c == '#') = false := h.head (p := (· == '#')) (by decide) c hc
  exact ⟨h.head (p := isNameChar) (by decide) c hc, beq_eq_false_iff_ne.1 hash⟩

theorem NameEnds.nil : NameEnds [] := nofun

/-- A word that is no more than a name ends where it did, also before a point or an opening mark. -/
theorem word_of_all (d : Dialect) (h : NameEnds rest) {text : List Char}
    (all : ∀ c ∈ text, isNameChar c = true) :
    word d (text ++ rest) = plainWord d text rest := by
  have letter : ∀ c ∈ rest.head?, isNameChar c = false := fun c hc => (h c hc).1
  unfold word
  rw [takeWhile_append_rest letter, dropWhile_append_rest letter, List.takeWhile_eq_self_iff.2 all,
    List.dropWhile_eq_nil_iff.2 all, List.nil_append]
  dsimp only
  split
  · exact absurd rfl (h '#' rfl).2
  · rfl

/-! ### Strings and addresses -/

theorem mem_of_stringBody {quote : Char} {skip : Nat} {cs text value tail : List Char}
    (h : stringBody quote skip cs = some (text, value, tail)) : quote ∈ cs := by
  induction cs generalizing skip text value with
  | nil => cases skip <;> exact absurd h (by simp [stringBody])
  | cons c cs ih =>
    cases skip with
    | succ skip =>
      rw [stringBody, Option.map_eq_some_iff] at h
      obtain ⟨⟨text', value', tail'⟩, inner, same⟩ := h
      cases same
      exact List.mem_cons_of_mem _ (ih inner)
    | zero =>
      rw [stringBody] at h
      cases hu : unit? quote c cs with
      | none =>
        -- only a quote that no other follows is no unit
        have : c = quote := by
          by_contra hc
          unfold unit? at hu
          rw [if_neg hc] at hu
          split at hu
          · split at hu <;> cases hu
          · cases hu
        exact this ▸ List.mem_cons_self
      | some unit =>
        rw [hu] at h
        dsimp only at h
        rw [Option.map_eq_some_iff] at h
        obtain ⟨⟨text', value', tail'⟩, inner, same⟩ := h
        cases same
        exact List.mem_cons_of_mem _ (ih inner)

/-- Where the string closes, its characters in hexadecimal do not reach beyond the quote. -/
theorem hexEscape?_append_rest {quote : Char} (hq : isHexDigit quote = false) {cs : List Char}
    (closes : quote ∈ cs) : hexEscape? quote (cs ++ rest) = hexEscape? quote cs := by
  by_cases long : hexWidth quote ≤ cs.length
  · unfold hexEscape?
    rw [List.take_append_of_le_length long]
  · have short : (cs.take (hexWidth quote)).length ≠ hexWidth quote := by
      rw [List.length_take]
      omega
    have stop : ((cs ++ rest).take (hexWidth quote)).all isHexDigit = false := by
      rw [List.all_eq_false]
      refine ⟨quote, ?_, by simp [hq]⟩
      rw [List.take_append, List.take_of_length_le (by omega)]
      exact List.mem_append_left _ closes
    simp only [hexEscape?, eq_false short, decide_false, Bool.false_and, stop, Bool.and_false]
    rfl

theorem unit?_append_rest {quote : Char} (hq : isHexDigit quote = false)
    (h : ∀ c ∈ rest.head?, c ≠ quote) {c : Char} {cs : List Char}
    (closes : c = quote ∨ quote ∈ cs) : unit? quote c (cs ++ rest) = unit? quote c cs := by
  unfold unit?
  by_cases hc : c = quote
  · rw [if_pos hc, if_pos hc]
    cases cs with
    | cons d ds => rfl
    | nil =>
      cases rest with
      | nil => rfl
      | cons d ds => simp [h d rfl]
  · rw [if_neg hc, if_neg hc]
    have closes := closes.resolve_left hc
    have head : (cs ++ rest).head? = cs.head? := by
      cases cs with
      | nil => cases closes
      | cons d ds => rfl
    rw [hexEscape?_append_rest hq closes, head]

/-- A string ends where it did before, unless its quote comes again. -/
theorem stringBody_append_rest {quote : Char} (hq : isHexDigit quote = false)
    (h : ∀ c ∈ rest.head?, c ≠ quote) {skip : Nat} {cs text value tail : List Char}
    (hs : stringBody quote skip cs = some (text, value, tail)) :
    stringBody quote skip (cs ++ rest) = some (text, value, tail ++ rest) := by
  -- Induction along the text; the closing quote is still behind each unit, so no unit reaches the
  -- rest.
  induction cs generalizing skip text value with
  | nil => cases skip <;> exact absurd hs (by simp [stringBody])
  | cons c cs ih =>
    cases skip with
    | succ skip =>
      rw [stringBody, Option.map_eq_some_iff] at hs
      obtain ⟨⟨text', value', tail'⟩, inner, same⟩ := hs
      cases same
      rw [List.cons_append, stringBody, ih inner]
      rfl
    | zero =>
      have closes : c = quote ∨ quote ∈ cs := by
        have := List.mem_cons.1 (mem_of_stringBody hs)
        exact this.imp Eq.symm id
      rw [stringBody] at hs
      rw [List.cons_append, stringBody, unit?_append_rest hq h closes]
      cases hu : unit? quote c cs with
      | none =>
        rw [hu] at hs
        cases hs
        rfl
      | some unit =>
        rw [hu] at hs
        dsimp only at hs ⊢
        rw [Option.map_eq_some_iff] at hs
        obtain ⟨⟨text', value', tail'⟩, inner, same⟩ := hs
        cases same
        rw [ih inner]
        rfl

theorem addressTail_append_rest (h : Apart rest) (lead : List Char) (area : Address.Area)
    (size : Address.Size) (cs : List Char) :
    addressTail lead area size (cs ++ rest) =
      (addressTail lead area size cs).map (followedBy rest) := by
  have letter : ∀ c ∈ rest.head?, isNameChar c = false := h.head (by decide)
  have ascii : ∀ c ∈ rest.head?, isAsciiDigit c = false := h.head (by decide)
  unfold addressTail
  rw [takeWhile_append_rest ascii, dropWhile_append_rest ascii, takeWhile_append_rest letter,
    dropWhile_append_rest letter]
  dsimp only
  split
  · rfl
  · rw [afterPoint_append_rest h ascii]
    dsimp only
    -- the numbers are read from the same digits
    cases (afterPoint isAsciiDigit (cs.dropWhile isAsciiDigit)).1.mapM decimal with
    | error f => rfl
    | ok bit =>
      cases decimal (cs.takeWhile isAsciiDigit) with
      | error f | ok byte => rfl

/-- An address ends where it did before. -/
theorem address_append_rest (h : Apart rest) (cs : List Char) :
    address (cs ++ rest) = (address cs).map (followedBy rest) := by
  -- The letters are found by looking at up to two characters, and what follows an address begins
  -- with none of them.
  cases cs with
  | nil =>
    cases rest with
    | nil => rfl
    | cons a as =>
      have area : area? a = none := by
        have := h.head (p := fun a => (area? a).isSome) (by decide) a rfl
        simpa using this
      show address (a :: as) = _
      unfold address
      dsimp only
      rw [area]
      rfl
  | cons a cs =>
    unfold address
    dsimp only [List.cons_append]
    cases area? a with
    | none => rfl
    | some area =>
      cases cs with
      | nil =>
        cases rest with
        | nil => rfl
        | cons s ss =>
          have size : size? s = none := by
            have := h.head (p := fun s => (size? s).isSome) (by decide) s rfl
            simpa using this
          have tail := addressTail_append_rest h ['%', a] area .bit []
          dsimp only [List.nil_append]
          rw [size]
          exact tail
      | cons s cs =>
        dsimp only [List.cons_append]
        cases size? s with
        | none => exact addressTail_append_rest h ['%', a] area .bit (s :: cs)
        | some size => exact addressTail_append_rest h ['%', a, s] area size cs

/-! ### Operands -/

/-- The token is a constant or an address. -/
def isOperand : Lexeme → Bool
  | .keyword .TRUE | .keyword .FALSE | .keyword .NULL | .integer _ | .real _ | .string _
  | .wideString _ | .duration _ | .date _ | .timeOfDay _ | .dateAndTime _ | .address _ => true
  | _ => false

theorem not_isOperand_mark (d : Dialect) (c : Char) (cs : List Char) :
    isOperand (mark d c cs).lexeme = false := by
  unfold mark
  split
  · next text lexeme h =>
    have listed := List.mem_of_find?_eq_some h
    have all : ∀ m ∈ marks d, isOperand m.2 = false := by
      unfold marks
      split
      · decide
      · decide
    exact all _ listed
  · rfl

/-- The token was never closed, and so the rest of the text belongs to it. -/
def isOpen : Lexeme → Bool
  | .malformed .unterminatedComment | .malformed .unclosedString | .malformed .unclosedBracket => true
  | _ => false

theorem isOpen_of_well {l : Lexeme} (well : ∀ e, l ≠ .malformed e) : isOpen l = false := by
  cases l with
  | malformed e => exact absurd rfl (well e)
  | _ => rfl

theorem stringLiteral_append_rest {quote : Char} (hq : isHexDigit quote = false)
    (h : ∀ c ∈ rest.head?, c ≠ quote) (cs : List Char)
    (closed : isOpen (stringLiteral quote cs).lexeme = false) :
    stringLiteral quote (cs ++ rest) = (stringLiteral quote cs).followedBy rest := by
  unfold stringLiteral at *
  cases hs : stringBody quote 0 cs with
  | none =>
    rw [hs] at closed
    cases closed
  | some found =>
    obtain ⟨text, value, tail⟩ := found
    rw [stringBody_append_rest hq h hs]
    rfl

theorem not_isOperand_pragma (cs : List Char) : isOperand (pragma cs).lexeme = false := by
  unfold pragma
  split
  · rfl
  · rfl

/-- What closes is found where it was. -/
theorem upTo?_append_rest {close : Char} {cs inner tail : List Char}
    (h : upTo? close cs = some (inner, tail)) (rest : List Char) :
    upTo? close (cs ++ rest) = some (inner, tail ++ rest) := by
  unfold upTo? at *
  split at h
  · next c _ closes =>
    cases h
    have parts := congrArg List.length (List.takeWhile_append_dropWhile (p := (· != close)) (l := cs))
    rw [closes, List.length_append, List.length_cons] at parts
    have before : (cs.takeWhile (· != close)).length ≠ cs.length := by omega
    rw [List.dropWhile_append, List.takeWhile_append, if_neg before, closes]
    rfl
  · cases h

theorem quotedName_append_rest (cs rest : List Char)
    (closed : isOpen (quotedName cs).lexeme = false) :
    quotedName (cs ++ rest) = (quotedName cs).followedBy rest := by
  unfold quotedName at *
  cases hs : upTo? '"' cs with
  | none =>
    rw [hs] at closed
    cases closed
  | some found =>
    rw [upTo?_append_rest hs]
    rfl

theorem pragma_append_rest (cs rest : List Char) (closed : isOpen (pragma cs).lexeme = false) :
    pragma (cs ++ rest) = (pragma cs).followedBy rest := by
  unfold pragma at *
  cases hs : upTo? '\x7d' cs with
  | none =>
    rw [hs] at closed
    cases closed
  | some found =>
    rw [upTo?_append_rest hs]
    rfl

/-! ### Marks -/

/-- A text without the character that comes next begins no more than it did before. -/
theorem prefix_append_iff {text cs rest : List Char} (h : ∀ c ∈ rest.head?, c ∉ text) :
    text <+: cs ++ rest ↔ text <+: cs := by
  refine ⟨fun longer => ?_, fun here => here.trans (List.prefix_append cs rest)⟩
  obtain here | ⟨more, rfl⟩ := List.prefix_or_prefix_of_prefix longer (List.prefix_append cs rest)
  · exact here
  · cases more with
    | nil => exact (List.append_nil cs).symm ▸ List.prefix_rfl
    | cons c more =>
      obtain ⟨tail, rfl⟩ := (List.prefix_append_right_inj cs).1 longer
      exact absurd (List.mem_append_right cs List.mem_cons_self) (h c rfl)

/-- A mark ends where it did before, unless the next character stands in a mark too. -/
theorem mark_append_rest (d : Dialect) (h : ∀ c ∈ rest.head?, ∀ m ∈ marks d, c ∉ m.1) (c : Char)
    (cs : List Char) : mark d c (cs ++ rest) = (mark d c cs).followedBy rest := by
  have same : (marks d).find? (·.1.isPrefixOf (c :: (cs ++ rest))) =
      (marks d).find? (·.1.isPrefixOf (c :: cs)) := by
    -- No mark reaches into the rest, so each fits now if it did before.
    have shorter (m : List Char × Lexeme) (hm : m ∈ marks d) :
        m.1.isPrefixOf (c :: (cs ++ rest)) = m.1.isPrefixOf (c :: cs) := by
      rw [Bool.eq_iff_iff, List.isPrefixOf_iff_prefix, List.isPrefixOf_iff_prefix,
        ← List.cons_append]
      exact prefix_append_iff fun e he => h e he m hm
    revert shorter
    generalize marks d = ms
    intro shorter
    induction ms with
    | nil => rfl
    | cons m ms ih =>
      rw [List.find?_cons, List.find?_cons, shorter m List.mem_cons_self,
        ih fun m hm => shorter m (List.mem_cons_of_mem _ hm)]
  unfold mark
  rw [same]
  split
  · next text lexeme found =>
    have begins : text <+: c :: cs := by
      have holds := List.find?_some found
      exact List.isPrefixOf_iff_prefix.1 holds
    have cut : (c :: (cs ++ rest)).drop text.length = (c :: cs).drop text.length ++ rest := by
      rw [← List.cons_append, List.drop_append_of_le_length begins.length_le]
    rw [cut]
    rfl
  · rfl

/-! ### Every token -/

/-- A token that is closed ends where it did before, if a mark does. -/
theorem read_append (d : Dialect) {c : Char} {cs : List Char} {x : Lexed}
    (hr : read d c cs = .ok x) (closed : isOpen x.lexeme = false) (apart : Apart rest)
    (ends : isTime x.lexeme = true → Ends rest)
    (mark : x = mark d c cs → mark d c (cs ++ rest) = x.followedBy rest) :
    read d c (cs ++ rest) = .ok (x.followedBy rest) := by
  -- Both quotes begin a string, the double one not in all dialects.
  have string (hq : isHexDigit c = false) (other : ('.' :: followers).any (· == c) = false)
      (closed : isOpen (stringLiteral c cs).lexeme = false) :
      stringLiteral c (cs ++ rest) = (stringLiteral c cs).followedBy rest :=
    stringLiteral_append_rest hq (fun e he => beq_eq_false_iff_ne.1 (apart.head other e he)) cs closed
  unfold read at *
  -- The cases are those of the reading, which looks at the first character only.
  by_cases name : isNameStart c = true
  · rw [if_pos name] at hr ⊢
    cases hr
    exact congrArg Except.ok (word_append_rest d apart (c :: cs) ends)
  rw [if_neg name] at hr ⊢
  by_cases digit : isAsciiDigit c = true
  · rw [if_pos digit] at hr ⊢
    have longer := number_append_rest apart (c :: cs)
    rw [hr] at longer
    exact longer
  rw [if_neg digit] at hr ⊢
  by_cases narrow : c = '\''
  · rw [if_pos narrow] at hr ⊢
    cases hr
    exact congrArg Except.ok (string (by subst narrow; decide) (by subst narrow; decide) closed)
  rw [if_neg narrow] at hr ⊢
  by_cases wide : c = '"'
  · rw [if_pos wide] at hr ⊢
    by_cases quoted : d.quotedNames = true
    · rw [if_pos quoted] at hr ⊢
      cases hr
      exact congrArg Except.ok (quotedName_append_rest cs rest closed)
    · rw [if_neg quoted] at hr ⊢
      cases hr
      exact congrArg Except.ok (string (by subst wide; decide) (by subst wide; decide) closed)
  rw [if_neg wide] at hr ⊢
  by_cases percent : c = '%'
  · rw [if_pos percent] at hr ⊢
    have longer := address_append_rest apart cs
    rw [hr] at longer
    exact longer
  rw [if_neg percent] at hr ⊢
  by_cases brace : (decide (c = '\x7b') && d.pragmas) = true
  · rw [if_pos brace] at hr ⊢
    cases hr
    exact congrArg Except.ok (pragma_append_rest cs rest closed)
  · rw [if_neg brace] at hr ⊢
    cases hr
    exact congrArg Except.ok (mark rfl)

/-- A constant or an address ends where it did before. -/
theorem read_append_rest (d : Dialect) {c : Char} {cs : List Char} {x : Lexed}
    (hr : read d c cs = .ok x) (hx : isOperand x.lexeme = true) (apart : Apart rest)
    (ends : isTime x.lexeme = true → Ends rest) :
    read d c (cs ++ rest) = .ok (x.followedBy rest) := by
  refine read_append d hr (isOpen_of_well fun e same => ?_) apart ends fun same => ?_
  · rw [same] at hx
    cases hx
  · rw [same, not_isOperand_mark] at hx
    cases hx

end Lexed

end Plc

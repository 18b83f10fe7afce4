/-
Texts put together from pieces.

A `Phrase` is a text with its words: wherever it stands before something that meets a
condition, it is cut into them.  A printer joins phrases, with blanks where two words
would run together.

* `Phrase.append`, `Phrase.joined` — one phrase after another;
* `Phrase.spaced`, `Phrase.before`, `Phrase.after` — a word with blanks around it;
* `Slot.commas`, `Slot.parens` — phrases and gaps with commas between them, in parentheses;
* `Lines` — phrases on lines of their own.
-/
import Mathlib.Data.List.Forall2
import Plc.Printer
import Plc.Proofs.RoundTrip.Printable

namespace Plc

open Lexed Text

/-- The marks that assign the result of an operation stand before anything, in a dialect that has
them. -/
theorem Word.stands_compound {d : Dialect} {op : AssignOp} (h : op ≠ .assign)
    (hd : d.compoundAssignment = true) (rest : List Char) : (Word.mark op.mark).Stands d rest := by
  obtain ⟨c, cs, hm⟩ : ∃ c cs, op.mark.symbol.toList = c :: cs := by
    cases op <;> exact ⟨_, _, rfl⟩
  cases op
  case assign => exact absurd rfl h
  all_goals
    have read := hm
    rw [AssignOp.mark, Mark.symbol] at read
    simp at read
    obtain ⟨rfl, rfl⟩ := read
    refine stands_symbol hm (by decide) (by simp) (by simp) ?_
    simp [Lexed.mark, marks, compoundMarks, hd, AssignOp.mark]

/-- The words in parentheses. -/
def parenWords (ws : List Word) : List Word :=
  .mark .leftParen :: (ws ++ [.mark .rightParen])

/-- The lists of words with commas between them. -/
def commaWords : List (List Word) → List Word
  | [] => []
  | ws :: wss => ws ++ wss.flatMap (.mark .comma :: ·)

/-- Whatever follows. -/
def Anything : List Char → Prop := fun _ => True

/-- The text is cut into the words, whatever follows it that meets the condition.  It begins with
no character that would make a mark before it longer, or that is no part of a text. -/
structure Phrase (d : Dialect) (follows : List Char → Prop) (text : String) (ws : List Word) : Prop where
  opens : ∃ c cs, text.toList = c :: cs ∧ c ∉ ['*', '=', '\ufeff']
  cut : ∀ rest, follows rest → Cut d (text.toList ++ rest) ws rest

theorem plain_of_opensOperand {c : Char} (h : opensOperand c = true) :
    c ∉ ['*', '=', '\ufeff'] := by
  have others := (clear_of_opensOperand h).2
  simp only [List.mem_cons, not_or] at others ⊢
  obtain ⟨-, -, star, equal, -, mark, none⟩ := others
  exact ⟨star, equal, mark, none⟩

namespace Phrase

variable {d : Dialect} {F G : List Char → Prop} {a b : String} {ws ws' : List Word} {w : Word}

theorem mono (h : Phrase d F a ws) (weaker : ∀ rest, G rest → F rest) : Phrase d G a ws :=
  ⟨h.opens, fun rest hr => h.cut rest (weaker rest hr)⟩

theorem ends (h : Phrase d Apart a ws) : Phrase d Ends a ws :=
  h.mono fun _ => Ends.apart

theorem apart (h : Phrase d NameEnds a ws) : Phrase d Apart a ws :=
  h.mono fun _ => Apart.nameEnds

theorem any (h : Phrase d Anything a ws) : Phrase d F a ws :=
  h.mono fun _ _ => trivial

theorem append (h : Phrase d F a ws) (h' : Phrase d G b ws')
    (meets : ∀ rest, G rest → F (b.toList ++ rest)) : Phrase d G (a ++ b) (ws ++ ws') := by
  obtain ⟨c, cs, text, plain⟩ := h.opens
  refine ⟨⟨c, cs ++ b.toList, ?_, plain⟩, fun rest hr => ?_⟩
  · rw [String.toList_append, text, List.cons_append]
  · rw [String.toList_append, List.append_assoc]
    exact (h.cut _ (meets rest hr)).append (h'.cut rest hr)

theorem append_any (h : Phrase d Anything a ws) (h' : Phrase d G b ws') : Phrase d G (a ++ b) (ws ++ ws') :=
  h.append h' fun _ _ => trivial

/-- An operand and what closes it. -/
theorem joined (h : Phrase d Ends a ws) (h' : Phrase d G b ws')
    (closes : b.toList.head?.all closers.contains = true) : Phrase d G (a ++ b) (ws ++ ws') := by
  refine h.append h' fun rest _ c hc => ?_
  obtain ⟨e, es, text, -⟩ := h'.opens
  rw [text] at hc closes
  obtain rfl := Option.some.inj hc
  exact List.contains_iff_mem.1 closes

/-! ### Single words -/

theorem word (opens : ∀ c ∈ w.text.toList.head?, c ∉ ['*', '=', '\ufeff'])
    (stands : ∀ rest, F rest → w.Stands d rest) (atEnd : F []) : Phrase d F w.text [w] := by
  obtain ⟨c, cs, text, -⟩ := (stands [] atEnd).read
  rw [text] at opens
  exact ⟨⟨c, cs, text, opens c rfl⟩, fun rest hr => .single (stands rest hr)⟩

theorem plain_head {text : List Char}
    (h : text.head?.any ['*', '=', '\ufeff'].contains = false) :
    ∀ c ∈ text.head?, c ∉ ['*', '=', '\ufeff'] := by
  intro c hc special
  rw [Option.mem_def.1 hc, Option.any_some] at h
  exact Bool.false_ne_true (h.symm.trans (List.contains_iff_mem.2 special))

/-- A word after a blank. -/
theorem after (stands : ∀ rest, F rest → w.Stands d rest) : Phrase d F (" " ++ w.text) [w] := by
  refine ⟨⟨' ', w.text.toList, ?_, by decide⟩, fun rest hr => ?_⟩
  · rw [String.toList_append]
    rfl
  · rw [String.toList_append, List.append_assoc]
    exact .blank (by decide) (.single (stands rest hr))

theorem keyword {k : Keyword} (hk : d.reserves k = true) :
    Phrase d NameEnds k.spelling [.keyword k] := by
  refine word (w := .keyword k) ?_ (fun rest => Word.stands_keyword hk) .nil
  obtain ⟨c, cs, text, start⟩ := hasNameShape_opens k.shape_spelling.1
  show ∀ c ∈ k.spelling.toList.head?, _
  rw [text]
  rintro _ ⟨⟩
  exact plain_of_opensOperand (opensOperand_of_isNameStart start)

/-- A reserved word before a blank. -/
theorem keyword_blank {k : Keyword} (hk : d.reserves k = true) :
    Phrase d Anything (k.spelling ++ " ") [.keyword k] := by
  obtain ⟨c, cs, text, plain⟩ := (keyword hk).opens
  refine ⟨⟨c, cs ++ [' '], ?_, plain⟩, fun rest _ => ?_⟩
  · rw [String.toList_append, text]
    rfl
  · rw [String.toList_append, List.append_assoc]
    exact .word (Word.stands_keyword hk (Apart.cons (by decide)).nameEnds) (.blank (by decide) (.done rest))

/-- A word between blanks. -/
theorem spaced (stands : ∀ rest, w.Stands d (' ' :: rest)) :
    Phrase d Anything (" " ++ w.text ++ " ") [w] := by
  refine ⟨⟨' ', w.text.toList ++ [' '], ?_, by decide⟩, fun rest _ => ?_⟩
  · rw [String.toList_append, String.toList_append]
    rfl
  · rw [String.toList_append, String.toList_append, List.append_assoc, List.append_assoc]
    exact .blank (by decide) (.word (stands rest) (.blank (by decide) (.done rest)))

/-- A reserved word after a blank. -/
theorem blank_keyword {k : Keyword} (hk : d.reserves k = true) :
    Phrase d Ends (" " ++ k.spelling) [.keyword k] :=
  after (w := .keyword k) fun _ hr => Word.stands_keyword hk hr.apart.nameEnds

theorem mark {m : Mark} (opens : m.symbol.toList.head?.any ['*', '=', '\ufeff'].contains = false)
    (stands : ∀ rest, F rest → m.endsBefore rest.head? = true) (atEnd : F []) :
    Phrase d F m.symbol [.mark m] :=
  word (w := .mark m) (plain_head opens)
    (fun rest hr => Word.stands_mark d (stands rest hr)) atEnd

theorem name {n : String} (hn : isIdentifier d n = true) : Phrase d NameEnds n [.name n] := by
  refine word (w := .name n) ?_ (fun rest => Word.stands_name hn) .nil
  obtain ⟨c, cs, text, start⟩ := isIdentifier_opens hn
  show ∀ c ∈ n.toList.head?, _
  rw [text]
  rintro _ ⟨⟩
  exact plain_of_opensOperand (opensOperand_of_isNameStart start)

/-- A constant or an address. -/
theorem operand {text : String} (h : w.IsOperand d) (written : w.text = text)
    (stands : ∀ rest, F rest → w.Stands d rest) (atEnd : F []) :
    Phrase d F text [.ofText d text] := by
  subst written
  rw [h.ofText_eq]
  exact word (fun c hc => plain_of_opensOperand (h.opens c hc)) stands atEnd

/-! ### Lists and parentheses -/

theorem spaced_mark {m : Mark} (stands : m.endsBefore (some ' ') = true) :
    Phrase d Anything (" " ++ m.symbol ++ " ") [.mark m] :=
  spaced (w := .mark m) fun _ => Word.stands_mark d stands

theorem spaced_keyword {k : Keyword} (hk : d.reserves k = true) :
    Phrase d Anything (" " ++ k.spelling ++ " ") [.keyword k] :=
  spaced (w := .keyword k) fun _ => Word.stands_keyword hk (Apart.cons (by decide)).nameEnds

theorem comma : Phrase d Anything ", " [.mark .comma] := by
  refine ⟨⟨',', [' '], rfl, by decide⟩, fun rest _ => ?_⟩
  exact .word (w := .mark .comma) (Word.stands_mark d rfl) (.blank (by decide) (.done rest))

theorem close {m : Mark} (hm : m ∈ [.rightParen, .rightBracket, .semicolon, .caret]) :
    Phrase d Anything m.symbol [.mark m] := by
  refine mark ?_ (fun rest _ => ?_) trivial
  · revert m
    decide
  · simp only [List.mem_cons, List.not_mem_nil, or_false] at hm
    obtain rfl | rfl | rfl | rfl := hm
    all_goals rfl

theorem commas {texts : List String} {wss : List (List Word)}
    (h : List.Forall₂ (Phrase d F) texts wss) (some_text : texts ≠ [])
    (meets : ∀ rest, F (',' :: rest)) : Phrase d F (Plc.commas texts) (commaWords wss) := by
  induction h with
  | nil => exact absurd rfl some_text
  | @cons text ws texts wss first more ih =>
    cases more with
    | nil =>
      rw [Plc.commas, String.intercalate_singleton, commaWords, List.flatMap_nil, List.append_nil]
      exact first
    | @cons text' ws' texts wss second more =>
      have tail := ih (List.cons_ne_nil _ _)
      rw [Plc.commas, String.intercalate_cons_cons, commaWords, List.flatMap_cons]
      have whole := (first.append comma fun rest _ => meets (' ' :: rest)).append_any tail
      rwa [List.append_assoc] at whole

theorem commas_ends {texts : List String} {wss : List (List Word)}
    (h : List.Forall₂ (Phrase d Ends) texts wss) (some_text : texts ≠ []) :
    Phrase d Ends (Plc.commas texts) (commaWords wss) := by
  refine commas h some_text fun rest c hc => ?_
  cases hc
  decide

end Phrase

/-! ### Gaps -/

/-- A phrase, or a gap where nothing is written. -/
structure Slot (d : Dialect) (text : String) (ws : List Word) : Prop where
  opens : ∀ c ∈ text.toList.head?, c ∉ ['*', '=', '\ufeff']
  cut : ∀ rest, Ends rest → Cut d (text.toList ++ rest) ws rest

section

variable {d : Dialect} {F : List Char → Prop} {a : String} {ws : List Word}

theorem Phrase.slot (h : Phrase d Ends a ws) : Slot d a ws := by
  obtain ⟨c, cs, text, plain⟩ := h.opens
  refine ⟨?_, h.cut⟩
  rw [text]
  rintro _ ⟨⟩
  exact plain

namespace Slot

theorem empty : Slot d "" [] :=
  ⟨nofun, fun rest _ => .done rest⟩

theorem commas {texts : List String} {wss : List (List Word)}
    (h : List.Forall₂ (Slot d) texts wss) : Slot d (Plc.commas texts) (commaWords wss) := by
  induction h with
  | nil => exact empty
  | @cons text ws texts wss first more ih =>
    cases more with
    | nil =>
      rw [Plc.commas, String.intercalate_singleton, commaWords, List.flatMap_nil, List.append_nil]
      exact first
    | @cons text' ws' texts wss second more =>
      rw [Plc.commas, String.intercalate_cons_cons, commaWords, List.flatMap_cons]
      constructor
      · rw [String.toList_append, String.toList_append]
        cases text : text.toList with
        | nil =>
          rintro _ ⟨⟩
          decide
        | cons c cs => exact fun e he => first.opens e (by rw [text]; exact he)
      · intro rest hr
        rw [String.toList_append, String.toList_append, List.append_assoc, List.append_assoc]
        refine (first.cut _ fun e he => by cases he; decide).append ?_
        exact (Phrase.comma.cut _ trivial).append (ih.cut rest hr)

/-- No mark but the one for an opening parenthesis depends on a star after it. -/
theorem parens (h : Slot d a ws) : Phrase d F (Plc.parens a) (parenWords ws) := by
  refine ⟨⟨'(', a.toList ++ [')'], ?_, by decide⟩, fun rest _ => ?_⟩
  · rw [Plc.parens, String.toList_append, String.toList_append]
    rfl
  · rw [Plc.parens, String.toList_append, String.toList_append, List.append_assoc, List.append_assoc]
    have opener : (a.toList ++ (")".toList ++ rest)).head? ≠ some '*' := by
      cases text : a.toList with
      | nil => nofun
      | cons c cs =>
        rintro ⟨⟩
        exact h.opens '*' (by rw [text]; rfl) (by decide)
    have inner := h.cut (")".toList ++ rest) fun e he => by cases he; decide
    have close : Cut d (")".toList ++ rest) [.mark .rightParen] rest :=
      .single (w := .mark .rightParen) (Word.stands_mark d rfl)
    refine .word (w := .mark .leftParen) (Word.stands_mark d ?_) (inner.append close)
    simpa [Mark.endsBefore] using opener

end Slot

theorem Phrase.parens (h : Phrase d Ends a ws) : Phrase d F (Plc.parens a) (parenWords ws) :=
  h.slot.parens

end

/-! ### Lines -/

/-- The lines are cut into the words, whatever follows them. -/
structure Lines (d : Dialect) (lines : List String) (ws : List Word) : Prop where
  opens : ∀ c ∈ (String.join (lines.map (· ++ "\n"))).toList.head?, c ≠ '\ufeff'
  cut : ∀ rest, Cut d ((String.join (lines.map (· ++ "\n"))).toList ++ rest) ws rest

namespace Lines

variable {d : Dialect}

theorem nil : Lines d [] [] :=
  ⟨fun c hc => by simp [String.join] at hc, fun rest => .done rest⟩

theorem append {ls ls' : List String} {ws ws' : List Word} (h : Lines d ls ws)
    (h' : Lines d ls' ws') : Lines d (ls ++ ls') (ws ++ ws') := by
  have both : (String.join ((ls ++ ls').map (· ++ "\n"))).toList =
      (String.join (ls.map (· ++ "\n"))).toList ++ (String.join (ls'.map (· ++ "\n"))).toList := by
    rw [List.map_append, String.join_append, String.toList_append]
  constructor
  · rw [both]
    intro c hc
    cases hl : (String.join (ls.map (· ++ "\n"))).toList with
    | nil =>
      rw [hl] at hc
      exact h'.opens c hc
    | cons e es =>
      rw [hl] at hc
      exact h.opens c (by rw [hl]; exact hc)
  · intro rest
    rw [both, List.append_assoc]
    exact (h.cut _).append (h'.cut rest)

theorem blanks_cut {text rest : List Char} {ws : List Word} (n : Nat)
    (h : Cut d text ws rest) : Cut d (List.replicate n ' ' ++ text) ws rest := by
  induction n with
  | zero => exact h
  | succ n ih => exact .blank (by decide) ih

/-- A phrase on a line of its own. -/
theorem line {text : String} {ws : List Word} (h : Phrase d Ends text ws) (depth : Nat) :
    Lines d [indented depth text] ws := by
  have whole : (String.join ([indented depth text].map (· ++ "\n"))).toList =
      List.replicate (4 * depth) ' ' ++ (text.toList ++ ['\n']) := by
    simp [indented, String.join]
  obtain ⟨c, cs, first, plain⟩ := h.opens
  -- The line has to begin with no mark of the byte order, which neither a blank nor the phrase
  -- does. Then it is cut behind its blanks.
  constructor
  · rw [whole, first]
    intro e he
    cases hn : 4 * depth with
    | zero =>
      rw [hn] at he
      cases he
      rintro rfl
      exact plain (by decide)
    | succ n =>
      rw [hn] at he
      cases he
      decide
  · intro rest
    rw [whole, List.append_assoc, List.append_assoc]
    refine blanks_cut _ ?_
    have body := (h.cut ('\n' :: rest) fun e he => by cases he; decide).append
      (.blank (by decide) (.done rest))
    rwa [List.append_nil] at body

end Lines

end Plc

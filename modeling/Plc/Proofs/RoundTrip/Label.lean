/-
Labels are told from statements.

The statements of a branch end where the label of the next one begins, so a label must
look like one and a statement must not.

* `Expr.Labels.begins` — the words of a label begin a branch;
* `Variable.not_label`, `pathWords_not_label` — those of an assignment or a call do not;
* `CaseSelector.isItem` — a label is read back.
-/
import Plc.Proofs.RoundTrip.Operation

namespace Plc

open Grammar Lexed

variable {d : Dialect}

/-- The words begin a branch of a `CASE` statement. -/
def startsBranch (d : Dialect) (ws : List Word) : Bool :=
  beginsCaseLabel d (ws.map Word.lexeme)

/-- What stops the reading of the statements of a branch. -/
theorem startsBranch_reads (names : List (List String)) (ws : List Word) :
    Reads d names
      (do return beginsCaseLabel (← dialect) ((← tokensLeft).map Token.lexeme) : Rule Bool)
      (· = startsBranch d ws) ws ws := by
  refine .look .dialect (Reads.tokensLeft.bind fun ts same => .pure ?_)
  have lexemes : ts.map Token.lexeme = ws.map Word.lexeme := by
    rw [← same, List.map_map]
    rfl
  rw [lexemes, startsBranch]

/-! ### Statements -/

theorem afterMembers_other {l : Lexeme} {ls : List Lexeme} (h : l.is Mark.dot = false) :
    afterMembers (l :: ls) = l :: ls := by
  cases ls with
  | nil => rfl
  | cons word ls => rw [afterMembers, h, Bool.false_and, if_neg Bool.false_ne_true]

/-- No mark of a label follows some points and names. -/
def NoLabel (ls : List Lexeme) : Prop :=
  followsLabel ((afterMembers ls).headD .finish) = false

theorem noLabel_of_other {l : Lexeme} {ls : List Lexeme} (dot : l.is Mark.dot = false)
    (h : followsLabel l = false) : NoLabel (l :: ls) := by
  rw [NoLabel, afterMembers_other dot]
  exact h

/-- Neither a member nor a number after a point makes a label of what follows. -/
theorem noLabel_member {m : String} {ls : List Lexeme} (h : isIdentifier d m = true ∨ IsNumeral d m)
    (more : NoLabel ls) : NoLabel (.mark .dot :: (Word.member d m).lexeme :: ls) := by
  unfold Word.member
  by_cases identifier : isIdentifier d m = true
  · rw [if_pos identifier]
    exact more
  · obtain ⟨k, operand⟩ := h.resolve_left identifier
    rw [if_neg identifier, show Word.ofText d m = _ from operand.ofText_eq]
    rfl

theorem Variable.tail_words_append {b : Variable} (h : b.Printable d) (ws : List Word)
    (ls : List Lexeme) : (b.words d ++ ws).tail.map Word.lexeme ++ ls =
      (b.words d).tail.map Word.lexeme ++ (ws.map Word.lexeme ++ ls) := by
  obtain ⟨w, rest, same, -⟩ := b.opens h
  rw [same, List.cons_append, List.tail_cons, List.tail_cons, List.map_append, List.append_assoc]

/-- The words of a variable that begins with a name do not make a label of it. -/
theorem Variable.noLabel_append : ∀ (v : Variable) (ls : List Lexeme), v.Printable d →
    (∀ w ∈ (v.words d).head?, w.lexeme = .name) → NoLabel ls →
    NoLabel ((v.words d).tail.map Word.lexeme ++ ls)
  | .named _ _ .plain, _, _, _, h => h
  | .named _ _ .quoted, _, _, _, h => h
  | .named _ n .blockLocal, _, _, head, _ => nomatch head (.mark .hash) rfl
  | .address _ _ _, _, _, _, h => h
  | .member _ b m, ls, ⟨hb, hm⟩, head, h => by
    obtain ⟨w, rest, same, -⟩ := b.opens hb
    rw [words, Variable.tail_words_append hb]
    rw [words, same] at head
    refine Variable.noLabel_append b _ hb (by rw [same]; exact head) ?_
    exact noLabel_member (hm.imp_right And.right) h
  | .element _ b is, ls, ⟨hb, _⟩, head, _ => by
    obtain ⟨w, rest, same, -⟩ := b.opens hb
    rw [words, Variable.tail_words_append hb]
    rw [words, same] at head
    refine Variable.noLabel_append b _ hb (by rw [same]; exact head) ?_
    exact noLabel_of_other rfl rfl
  | .deref _ b, ls, ⟨_, hb⟩, head, _ => by
    obtain ⟨w, rest, same, -⟩ := b.opens hb
    rw [words, Variable.tail_words_append (b := b) hb]
    rw [words, same] at head
    refine Variable.noLabel_append b _ hb (by rw [same]; exact head) ?_
    exact noLabel_of_other rfl rfl

/-- Neither an assignment to a variable nor its call is taken for a label. -/
theorem Variable.not_label {v : Variable} (h : v.Printable d) {m : Mark} {rest : List Word}
    (hm : m = .leftParen ∨ ∃ op : AssignOp, m = op.mark) :
    startsBranch d (v.words d ++ .mark m :: rest) = false := by
  have other : (Lexeme.mark m).is Mark.dot = false ∧ followsLabel (.mark m) = false ∧
      (Lexeme.mark m).is Mark.hash = false := by
    obtain rfl | ⟨op, rfl⟩ := hm
    · exact ⟨rfl, rfl, rfl⟩
    · cases op <;> exact ⟨rfl, rfl, rfl⟩
  have plain := v.noLabel_append (.mark m :: rest.map Word.lexeme) h
  obtain ⟨w, ws, same, first, -, access⟩ := v.opens h
  rw [same] at plain ⊢
  rw [startsBranch, List.cons_append, List.map_cons, beginsCaseLabel.eq_def]
  dsimp only
  -- Of what a variable begins with, only a name can begin a label; then neither a `#` nor the end
  -- of a label comes behind the members.
  cases hw : w.lexeme with
  | name =>
    have after : NoLabel (ws.map Word.lexeme ++ .mark m :: rest.map Word.lexeme) :=
      plain (by rintro _ ⟨⟩; exact hw) (noLabel_of_other other.1 other.2.1)
    have hash : (((ws ++ .mark m :: rest).map Word.lexeme).headD .finish).is Mark.hash = false := by
      cases ws with
      | nil => exact other.2.2
      | cons v vs => exact not_is_of (access (by rw [hw]; rfl) v rfl) rfl
    dsimp only
    rw [hash, Bool.false_or, Bool.and_eq_false_iff]
    right
    rw [List.map_append]
    exact after
  | quotedName | address => rfl
  | mark m' =>
    cases m' with
    | minus =>
      rw [hw] at first
      cases first
    | _ => rfl
  | _ => exact absurd first (by rw [hw]; exact Bool.false_ne_true)

theorem IsDotted.root {path : String} (h : IsDotted d path) : ∃ n ns, segments path = n :: ns ∧
    ((Variable.named .zero n .plain).members ns).words d = pathWords d path ∧
    ((Variable.named .zero n .plain).members ns).Printable d := by
  obtain ⟨n, ns, same, words, -⟩ := eq_members d path
  rw [IsDotted, same] at h
  have base : (Variable.named .zero n .plain).IsDotted d := h n List.mem_cons_self
  have whole := Variable.members_isDotted base fun m hm => h m (List.mem_cons_of_mem _ hm)
  exact ⟨n, ns, same, words, whole.printable⟩

theorem pathWords_not_label {path : String} (h : IsDotted d path) (rest : List Word) :
    startsBranch d (pathWords d path ++ .mark .leftParen :: rest) = false := by
  obtain ⟨n, ns, -, words, printable⟩ := h.root
  rw [← words]
  exact Variable.not_label printable (.inl rfl)

/-! ### Labels -/

theorem Expr.Labels.printable : ∀ {e : Expr}, e.Labels d → e.Printable d
  | .literal _ _, ⟨_, h⟩ => h
  | .unary _ .neg (.literal _ _), ⟨_, h⟩ => h
  | .variable _, ⟨_, h⟩ => h.printable

/-- The words of a dotted name after the first are points and names. -/
theorem Variable.IsDotted.afterMembers_words : ∀ {v : Variable} (ls : List Lexeme), v.IsDotted d →
    afterMembers ((v.words d).tail.map Word.lexeme ++ ls) = afterMembers ls ∧
      ∃ n, (v.words d).head? = some (.name n)
  | .named _ n .plain, _, _ => ⟨rfl, n, rfl⟩
  | .member _ b m, ls, ⟨hb, hm⟩ => by
    obtain ⟨after, n, first⟩ := hb.afterMembers_words (.mark .dot :: .name :: ls)
    rw [words, Variable.tail_words_append hb.printable, Word.member, if_pos hm]
    refine ⟨after, n, ?_⟩
    rw [List.head?_append, first]
    rfl

/-- A literal that is one token does not begin with a sign. -/
theorem Literal.IsToken.not_startsWith {l : Literal} (h : l.IsToken d) :
    l.text.startsWith "-" = false := by
  obtain ⟨w, operand, written, -⟩ := h
  have opens := operand.opens
  rw [written] at opens
  rw [← Bool.not_eq_true, String.startsWith_string_iff]
  rintro ⟨rest, same⟩
  rw [← same] at opens
  exact absurd (opens '-' rfl) (by decide)

theorem not_dot_of_followsLabel {l : Lexeme} (h : followsLabel l = true) :
    l.is Mark.dot = false := by
  cases l with
  | mark m =>
    refine beq_eq_false_iff_ne.2 ?_
    rintro rfl
    cases h
  | _ => rfl

theorem beginsCaseLabel_of_isLabel {l : Lexeme} (h : l.isLabel = true) (ls : List Lexeme) :
    beginsCaseLabel d (l :: ls) = true := by
  unfold Lexeme.isLabel at h
  split at h
  all_goals first | rfl | cases h

theorem beginsCaseLabel_of_isNumber {l : Lexeme} (h : l.isNumber = true) (ls : List Lexeme) :
    beginsCaseLabel d (.mark .minus :: l :: ls) = true := by
  unfold Lexeme.isNumber at h
  split at h
  all_goals first | rfl | cases h

/-- The words of a label and a mark after it begin a branch. -/
theorem Expr.Labels.begins : ∀ {e : Expr} {rest : List Word}, e.Labels d →
    followsLabel (ahead rest 0) = true → startsBranch d (e.words d 0 ++ rest) = true
  | .literal _ l, rest, ⟨hl, h⟩, _ => by
    rw [words]
    exact beginsCaseLabel_of_isLabel (h.lexeme fun _ means => means.isLabel hl) _
  | .unary _ .neg (.literal _ l), rest, ⟨hl, h⟩, _ => by
    rw [words, render, h.not_startsWith, if_neg (by exact Bool.false_ne_true), words]
    exact beginsCaseLabel_of_isNumber (h.lexeme fun _ means => means.isNumber hl) _
  | .variable v, rest, ⟨hd, h⟩, follows => by
    obtain ⟨after, n, first⟩ := h.afterMembers_words (rest.map Word.lexeme)
    obtain ⟨ws, same⟩ := List.head?_eq_some_iff.1 first
    -- What follows the label is no further member, so it is the mark that the look-ahead asks for.
    have mark : followsLabel ((afterMembers (rest.map Word.lexeme)).headD .finish) = true := by
      cases rest with
      | nil => cases follows
      | cons r rest =>
        rw [List.map_cons, afterMembers_other]
        · exact follows
        · exact not_dot_of_followsLabel follows
    rw [words, same, startsBranch, List.cons_append, List.map_cons, beginsCaseLabel.eq_def]
    rw [same, List.tail_cons] at after
    dsimp only [Word.name]
    rw [List.map_append, after, mark, Bool.or_true, hd]
    rfl

/-- Neither the end of the branches nor that of the text begins a branch. -/
theorem ahead_of_startsBranch {ws : List Word} (h : startsBranch d ws = true) :
    ((ahead ws 0).isFinish || (ahead ws 0).isAmong [.ELSE, .END_CASE]) = false := by
  cases ws with
  | nil => cases h
  | cons w ws =>
    show (w.lexeme.isFinish || w.lexeme.isAmong [.ELSE, .END_CASE]) = false
    rw [startsBranch, List.map_cons, beginsCaseLabel.eq_def] at h
    dsimp only at h
    cases hl : w.lexeme with
    | finish | keyword =>
      rw [hl] at h
      cases h
    | _ => rfl

namespace CaseSelector

variable {selectors : List CaseSelector}

theorem begins {s : CaseSelector} (h : s.Labels d) {rest : List Word}
    (follows : followsLabel (ahead rest 0) = true) : startsBranch d (s.words d ++ rest) = true := by
  cases s with
  | value _ x => exact Expr.Labels.begins h follows
  | range _ low high =>
    rw [words, List.append_assoc]
    exact h.1.begins rfl

/-- The labels of a branch and their colon begin it. -/
theorem begins_all (h : ∀ s ∈ selectors, s.Labels d) (labelled : selectors ≠ [])
    (rest : List Word) :
    startsBranch d (commaWords (selectors.map (words d)) ++ .mark .colon :: rest) = true := by
  cases selectors with
  | nil => exact absurd rfl labelled
  | cons s ss =>
    rw [List.map_cons, commaWords, List.append_assoc]
    refine begins (h s List.mem_cons_self) ?_
    cases ss with
    | nil => rfl
    | cons t ts => rfl

/-- A comma or a colon follows. -/
def Closes (ws : List Word) : Prop :=
  ahead ws 0 = .mark .comma ∨ ahead ws 0 = .mark .colon

/-- A label is read back. -/
theorem isItem {s : CaseSelector} (h : s.Labels d) (names : List (List String)) (levels : Nat) :
    Reads.Item d names bare (words d) Closes (caseSelector (Grammar.expression levels)) s := by
  intro rest closes
  have label {x : Expr} (hx : x.Labels d) := (x.readsBack hx.printable).isItem names levels
  -- A comma or a colon neither continues an expression nor makes it a range.
  have stops : Stops 1 rest ∧ (ahead rest 0).is Mark.range = false := by
    obtain same | same := closes
    · rw [same]
      exact ⟨Stops.of_none (same ▸ rfl) (same ▸ rfl), rfl⟩
    · rw [same]
      exact ⟨Stops.of_none (same ▸ rfl) (same ▸ rfl), rfl⟩
  refine (Reads.peekAt 0).bind fun start _ => ?_
  cases s with
  | value _ x =>
    refine (label h rest stops.1).bind fun x' same => ?_
    refine .look (.not_accept stops.2) (.ite_neg Bool.false_ne_true ?_)
    refine (Reads.node _ _).mono ?_
    rintro _ ⟨s, rfl⟩
    rw [bare, bare, same]
  | range _ low high =>
    rw [words, List.append_assoc]
    have first := label h.1 (.mark .range :: (high.words d 0 ++ rest)) (Stops.of_none rfl rfl)
    refine first.bind fun low' hlow => ?_
    refine .look (.accept rfl) (.ite_pos rfl ?_)
    refine (label h.2 rest stops.1).bind fun high' hhigh => (Reads.node _ _).mono ?_
    rintro _ ⟨s, rfl⟩
    rw [bare, bare, hlow, hhigh]

end CaseSelector

end Plc

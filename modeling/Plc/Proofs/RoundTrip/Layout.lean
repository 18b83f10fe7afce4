/-
What is printed is cut into the words of the tree.

The printer puts blanks, line ends and marks between the words so that each of them
ends where it should.

* `Expr.words`, `Stmt.words` — the words of a tree, parentheses included;
* `Expr.cut`, `Stmt.cut` — the text of a well-formed tree is cut into its words.
-/
import Plc.Proofs.RoundTrip.Phrase

namespace Plc

open Lexed Text Grammar

/-! ### Words of a tree -/

/-- The words of an operator. -/
def BinaryOp.lexeme : BinaryOp → Lexeme
  | .add => .mark .plus | .sub => .mark .minus | .mul => .mark .star | .div => .mark .slash
  | .mod => .keyword .MOD | .power => .mark .power
  | .eq => .mark .equal | .ne => .mark .notEqual | .lt => .mark .less | .le => .mark .lessEqual
  | .gt => .mark .greater | .ge => .mark .greaterEqual
  | .and => .keyword .AND | .or => .keyword .OR | .xor => .keyword .XOR

theorem BinaryOp.ofLexeme?_lexeme (op : BinaryOp) : ofLexeme? op.lexeme = some op := by
  cases op <;> rfl

/-- The operator as a word. -/
def BinaryOp.word (op : BinaryOp) : Word := ⟨op.lexeme, op.symbol⟩

/-- The word of a member: a name, or else a number. -/
def Word.member (d : Dialect) (m : String) : Word :=
  if isIdentifier d m then .name m else .ofText d m

/-- The words of members after points. -/
def memberWords (d : Dialect) : List String → List Word
  | [] => []
  | n :: ns => .mark .dot :: .member d n :: memberWords d ns

/-- The words of a dotted name. -/
def pathWords (d : Dialect) (path : String) : List Word :=
  match segments path with
  | [] => []
  | n :: ns => .name n :: memberWords d ns

mutual

/-- The words of a variable. -/
def Variable.words (d : Dialect) : Variable → List Word
  | .named _ n .plain => [.name n]
  | .named _ n .quoted => [.quoted n]
  | .named _ n .blockLocal => [.mark .hash, .name n]
  | .address _ text _ => [.ofText d text]
  | .member _ b m => b.words d ++ [.mark .dot, .member d m]
  | .element _ b is =>
    b.words d ++ .mark .leftBracket :: (commaWords (Expr.wordsEach d is) ++ [.mark .rightBracket])
  | .deref _ b => b.words d ++ [.mark .caret]

/-- The words of an expression inside an operator of precedence `outer`.  Initial values of arrays
and structures are left out. -/
def Expr.words (d : Dialect) : (outer : Nat) → Expr → List Word
  | _, .literal _ l => [.ofText d l.text]
  | _, .variable v => v.words d
  | _, .unary _ .not x => .keyword .NOT :: x.words d BinaryOp.eq.precedence
  | _, .unary _ .neg x =>
    .mark .minus :: (if x.isUnary || (x.render tightest).startsWith "-" then
      parenWords (x.words d tightest) else x.words d tightest)
  | outer, .binary _ op l r =>
    let bracketed (x : Expr) : Bool := x.isNot && !op.isLogical
    let left := if bracketed l then parenWords (l.words d 0) else l.words d op.leftPrecedence
    let right := if bracketed r then parenWords (r.words d 0) else r.words d op.rightPrecedence
    let ws := left ++ op.word :: right
    if op.precedence < outer then parenWords ws else ws
  | _, .paren _ x => parenWords (x.words d 0)
  | _, .call _ name args => pathWords d name ++ parenWords (commaWords (Arg.wordsEach d args))
  | _, .repeated _ _ _ | _, .arrayInit _ _ | _, .structInit _ _ => []

/-- The words of an argument. -/
def Arg.words (d : Dialect) : Arg → List Word
  | .positional _ x => x.words d 0
  | .named _ n x => .name n :: .mark .assign :: x.words d 0
  | .output _ n v negated =>
    (if negated then [.keyword .NOT] else []) ++ .name n :: .mark .arrow :: v.words d
  | .inferred _ => []

/-- The words of each expression of a list. -/
def Expr.wordsEach (d : Dialect) : List Expr → List (List Word)
  | [] => []
  | x :: xs => x.words d 0 :: Expr.wordsEach d xs

/-- The words of each argument of a list. -/
def Arg.wordsEach (d : Dialect) : List Arg → List (List Word)
  | [] => []
  | x :: xs => x.words d :: Arg.wordsEach d xs

end

/-- The words of a label. -/
def CaseSelector.words (d : Dialect) : CaseSelector → List Word
  | .value _ x => x.words d 0
  | .range _ low high => low.words d 0 ++ .mark .range :: high.words d 0

/-- The words that close a construct. -/
def closingWords (k : Keyword) : List Word :=
  [.keyword k, .mark .semicolon]

mutual

/-- The words of a statement.  Regions are left out. -/
def Stmt.words (d : Dialect) : Stmt → List Word
  | .assignment _ target op value =>
    target.words d ++ .mark op.mark :: (value.words d 0 ++ [.mark .semicolon])
  | .ifThen _ first elsifs none =>
    .keyword .IF :: (first.words d ++ (IfBranch.wordsAll d elsifs ++ closingWords .END_IF))
  | .ifThen _ first elsifs (some ss) =>
    .keyword .IF :: (first.words d ++ (IfBranch.wordsAll d elsifs ++
      .keyword .ELSE :: (Stmt.wordsAll d ss ++ closingWords .END_IF)))
  | .caseOf _ selector branches none =>
    .keyword .CASE :: (selector.words d 0 ++ .keyword .OF ::
      (CaseBranch.wordsAll d branches ++ closingWords .END_CASE))
  | .caseOf _ selector branches (some ss) =>
    .keyword .CASE :: (selector.words d 0 ++ .keyword .OF ::
      (CaseBranch.wordsAll d branches ++
        .keyword .ELSE :: (Stmt.wordsAll d ss ++ closingWords .END_CASE)))
  | .forLoop _ control start stop none body =>
    .keyword .FOR :: .name control :: .mark .assign :: (start.words d 0 ++
      .keyword .TO :: (stop.words d 0 ++
        .keyword .DO :: (Stmt.wordsAll d body ++ closingWords .END_FOR)))
  | .forLoop _ control start stop (some step) body =>
    .keyword .FOR :: .name control :: .mark .assign :: (start.words d 0 ++
      .keyword .TO :: (stop.words d 0 ++ .keyword .BY :: (step.words d 0 ++
        .keyword .DO :: (Stmt.wordsAll d body ++ closingWords .END_FOR))))
  | .whileLoop _ condition body =>
    .keyword .WHILE :: (condition.words d 0 ++
      .keyword .DO :: (Stmt.wordsAll d body ++ closingWords .END_WHILE))
  | .repeatLoop _ body condition =>
    .keyword .REPEAT :: (Stmt.wordsAll d body ++
      .keyword .UNTIL :: (condition.words d 0 ++ closingWords .END_REPEAT))
  | .exitLoop _ => closingWords .EXIT
  | .nextPass _ => closingWords .CONTINUE
  | .leave _ none => closingWords .RETURN
  | .leave _ (some x) => .keyword .RETURN :: (x.words d 0 ++ [.mark .semicolon])
  | .call _ _ name args =>
    pathWords d name ++
      (parenWords (commaWords (Arg.wordsEach d args)) ++ [.mark .semicolon])
  | .invoke _ callee args =>
    callee.words d ++ (parenWords (commaWords (Arg.wordsEach d args)) ++ [.mark .semicolon])
  | .empty _ => [.mark .semicolon]
  | .goto _ name => [.keyword .GOTO, .name name, .mark .semicolon]
  | .label _ name => [.name name, .mark .colon]
  | .region _ _ _ => []

/-- The words of a branch after the word that opens it. -/
def IfBranch.words (d : Dialect) : IfBranch → List Word
  | .mk _ condition body => condition.words d 0 ++ .keyword .THEN :: Stmt.wordsAll d body

/-- The words of a branch. -/
def CaseBranch.words (d : Dialect) : CaseBranch → List Word
  | .mk _ selectors body =>
    commaWords (selectors.map (CaseSelector.words d)) ++ .mark .colon :: Stmt.wordsAll d body

/-- The words of a list of statements. -/
def Stmt.wordsAll (d : Dialect) : List Stmt → List Word
  | [] => []
  | s :: ss => s.words d ++ Stmt.wordsAll d ss

/-- The words of the branches after the first. -/
def IfBranch.wordsAll (d : Dialect) : List IfBranch → List Word
  | [] => []
  | b :: bs => .keyword .ELSIF :: (b.words d ++ IfBranch.wordsAll d bs)

/-- The words of a list of branches. -/
def CaseBranch.wordsAll (d : Dialect) : List CaseBranch → List Word
  | [] => []
  | b :: bs => b.words d ++ CaseBranch.wordsAll d bs

end

variable {d : Dialect}

/-! ### Dotted names -/

/-- The variable that some names with points between them are. -/
def Variable.members (base : Variable) (ns : List String) : Variable :=
  ns.foldl (.member .zero) base

namespace Variable

theorem members_isDotted {base : Variable} {ns : List String} (h : base.IsDotted d)
    (hns : ∀ n ∈ ns, isIdentifier d n = true) : (base.members ns).IsDotted d := by
  induction ns generalizing base with
  | nil => exact h
  | cons n ns ih =>
    exact ih ⟨h, hns n List.mem_cons_self⟩ fun m hm => hns m (List.mem_cons_of_mem _ hm)

theorem members_words (base : Variable) (ns : List String) :
    (base.members ns).words d = base.words d ++ memberWords d ns := by
  induction ns generalizing base with
  | nil => exact (List.append_nil _).symm
  | cons n ns ih =>
    rw [members, List.foldl_cons, ← members, ih, words, List.append_assoc]
    rfl

theorem members_root? (base : Variable) (ns : List String) :
    (base.members ns).root? = base.root? := by
  induction ns generalizing base with
  | nil => rfl
  | cons n ns ih => exact ih _

/-- A dotted name is written as it is. -/
theorem members_path? (base : Variable) (ns : List String) {text : String}
    (written : base.render = text) (named : base.path? = some text) :
    (base.members ns).render = ".".intercalate (text :: ns) ∧
      (base.members ns).path? = some (".".intercalate (text :: ns)) := by
  induction ns generalizing base text with
  | nil =>
    rw [String.intercalate_singleton]
    exact ⟨written, named⟩
  | cons n ns ih =>
    have step := ih (.member .zero base n)
      (show _ = text ++ "." ++ n by rw [render, written]) (by rw [path?, named]; rfl)
    rw [String.intercalate_cons_cons]
    cases ns with
    | nil => simpa [members] using step
    | cons m ns =>
      rw [String.intercalate_cons_cons, ← String.append_assoc, ← String.append_assoc,
        ← String.intercalate_cons_cons]
      exact step

end Variable

/-- A dotted name is the text of a variable: a name and members of it. -/
theorem eq_members (d : Dialect) (path : String) : ∃ n ns, segments path = n :: ns ∧
    ((Variable.named .zero n .plain).members ns).words d = pathWords d path ∧
    ((Variable.named .zero n .plain).members ns).render = path ∧
    ((Variable.named .zero n .plain).members ns).path? = some path := by
  have whole : ".".intercalate (segments path) = path := by
    apply String.toList_inj.1
    rw [String.toList_intercalate, segments, List.map_map]
    simp [Function.comp_def]
  unfold pathWords
  cases hs : segments path with
  | nil =>
    have never := @List.splitOn_ne_nil _ _ '.' path.toList
    exact absurd (List.map_eq_nil_iff.1 hs) never
  | cons n ns =>
    rw [hs] at whole
    obtain ⟨written, named⟩ := Variable.members_path? (.named .zero n .plain) ns
      (rfl : _ = n) rfl
    rw [whole] at written named
    exact ⟨n, ns, rfl, Variable.members_words _ _, written, named⟩

/-! ### Expressions -/

/-- A literal on its own; before a mark, when it is no time. -/
theorem Literal.IsToken.phrase {l : Literal} (h : l.IsToken d) {F : List Char → Prop}
    (stands : ∀ w : Word, (∀ t : Token, t.word = w → t.Means l) →
      ∀ rest, F rest → Apart rest ∧ (isTime w.lexeme = true → Ends rest)) (atEnd : F []) :
    Phrase d F l.text [.ofText d l.text] := by
  obtain ⟨w, operand, written, means⟩ := h
  refine Phrase.operand operand written (fun rest hr => ?_) atEnd
  obtain ⟨apart, ends⟩ := stands w means rest hr
  exact operand.stands apart ends

theorem Phrase.minus {F : List Char → Prop} {text : String} {ws : List Word}
    (h : Phrase d F text ws) : Phrase d F ("-" ++ text) (.mark .minus :: ws) := by
  obtain ⟨c, cs, first, plain⟩ := h.opens
  have sign : Phrase d (fun rest => rest.head? ≠ some '=') "-" [.mark .minus] :=
    mark (m := .minus) (by decide) (fun rest hr => by simpa [Mark.endsBefore] using hr) nofun
  refine sign.append h fun rest _ => ?_
  rw [first]
  rintro ⟨⟩
  exact plain (by decide)

theorem Phrase.point : Phrase d (fun rest => rest.head? ≠ some '.') "." [.mark .dot] :=
  mark (m := .dot) (by decide) (fun rest hr => by simpa [Mark.endsBefore] using hr) nofun

theorem Phrase.member {base m : String} {ws : List Word} (h : Phrase d Apart base ws)
    (hm : isIdentifier d m = true) :
    Phrase d NameEnds (base ++ "." ++ m) (ws ++ [.mark .dot, .name m]) := by
  obtain ⟨c, cs, text, start⟩ := isIdentifier_opens hm
  have access := point.append (name hm) fun rest _ => by
    rw [text]
    rintro ⟨⟩
    exact absurd start (by decide)
  rw [String.append_assoc]
  refine h.append access fun rest _ => ?_
  rw [String.toList_append, text]
  exact .member start

/-- A number after a point, where the point does not make a number longer. -/
theorem Phrase.numeral {base m : String} {ws : List Word} (h : Phrase d NameEnds base ws)
    (hm : IsNumeral d m) : Phrase d Apart (base ++ "." ++ m) (ws ++ [.mark .dot, .ofText d m]) := by
  obtain ⟨n, operand⟩ := hm
  have digits : Phrase d Apart m [.ofText d m] :=
    Phrase.operand operand rfl (fun rest apart => operand.stands apart nofun) .nil
  obtain ⟨c, cs, text, -⟩ := digits.opens
  have access := point.append digits fun rest _ => by
    rw [text]
    rintro ⟨⟩
    have opens := operand.opens
    dsimp only at opens
    rw [text] at opens
    exact absurd (opens '.' rfl) (by decide)
  rw [String.append_assoc]
  refine h.append access fun rest _ => ?_
  rw [String.toList_append]
  rintro _ ⟨⟩
  exact ⟨by decide, by decide⟩

/-- What may follow the text of a variable: a number after a point, too, where that is a member. -/
def Variable.Clears (d : Dialect) (v : Variable) (rest : List Char) : Prop :=
  Apart rest ∨ v.takesNumeral d = true ∧ NameEnds rest

theorem Variable.Clears.nameEnds {v : Variable} {rest : List Char} (h : v.Clears d rest) :
    NameEnds rest :=
  h.elim Apart.nameEnds And.right

/-- An operator between blanks. -/
theorem BinaryOp.phrase (op : BinaryOp) :
    Phrase d Anything (" " ++ op.symbol ++ " ") [op.word] := by
  have blank (rest : List Char) : NameEnds (' ' :: rest) := (Apart.cons (by decide)).nameEnds
  refine Phrase.spaced (w := op.word) fun rest => ?_
  cases op with
  | mod => exact Word.stands_keyword (k := .MOD) rfl (blank rest)
  | and => exact Word.stands_keyword (k := .AND) rfl (blank rest)
  | or => exact Word.stands_keyword (k := .OR) rfl (blank rest)
  | xor => exact Word.stands_keyword (k := .XOR) rfl (blank rest)
  | _ => exact Word.stands_mark d rfl

/-- What is printed for a dotted name are its words. -/
theorem Variable.IsDotted.phrase : ∀ {v : Variable}, v.IsDotted d →
    Phrase d NameEnds v.render (v.words d)
  | .named _ _ .plain, hn => Phrase.name hn
  | .member _ _ m, ⟨hb, hm⟩ => by
    rw [render, words, Word.member, if_pos hm]
    exact hb.phrase.apart.member hm

theorem IsDotted.phrase {path : String} (h : IsDotted d path) :
    Phrase d Apart path (pathWords d path) := by
  obtain ⟨n, ns, same, words, written, -⟩ := eq_members d path
  rw [IsDotted, same] at h
  have base : (Variable.named .zero n .plain).IsDotted d := h n List.mem_cons_self
  have whole := (Variable.members_isDotted base fun m hm => h m (List.mem_cons_of_mem _ hm)).phrase
  rw [words, written] at whole
  exact whole.apart

mutual

/-- What is printed for a variable are its words. -/
theorem Variable.phrase : ∀ v : Variable, v.Printable d → Phrase d (v.Clears d) v.render (v.words d)
  -- What may follow depends on how the variable ends: with a name, a number or a closing sign.
  | .named _ n .plain, hn => (Phrase.name hn).mono fun _ => Variable.Clears.nameEnds
  | .named _ n .quoted, ⟨hd, hn⟩ => by
    refine Phrase.word (w := .quoted n) ?_ (fun rest _ => Word.stands_quoted hd hn rest) (.inl .nil)
    rw [Word.quoted, String.toList_append, String.toList_append]
    rintro _ ⟨⟩
    decide
  | .named _ n .blockLocal, ⟨_, hn⟩ => by
    have mark : Phrase d Anything "#" [.mark .hash] :=
      Phrase.mark (m := .hash) (by decide) (fun _ _ => rfl) trivial
    exact (mark.append_any (Phrase.name hn)).mono fun _ => Variable.Clears.nameEnds
  | .address _ text a, operand =>
    Phrase.operand operand rfl
      (fun rest clear => operand.stands (clear.resolve_right fun h => nomatch h.1) nofun) (.inl .nil)
  | .member _ b m, ⟨hb, hm⟩ => by
    rw [Variable.render, Variable.words, Word.member]
    have base := Variable.phrase b hb
    -- The member is a name or a number, and a number must not run into what follows.
    by_cases identifier : isIdentifier d m = true
    · rw [if_pos identifier]
      exact ((base.mono fun _ => .inl).member identifier).mono fun _ => Variable.Clears.nameEnds
    · obtain ⟨takes, numeral⟩ := hm.resolve_left identifier
      rw [if_neg identifier]
      refine ((base.mono fun _ ends => .inr ⟨takes, ends⟩).numeral numeral).mono fun rest clear => ?_
      exact clear.resolve_right fun h => identifier h.1
  | .element _ b is, ⟨hb, some_index, his⟩ => by
    rw [Variable.render, Variable.words]
    have indices := Phrase.commas_ends (Expr.phraseAll is his) (by cases is <;> simp_all [Expr.renderAll])
    have opener : Phrase d Anything "[" [.mark .leftBracket] :=
      Phrase.mark (m := .leftBracket) (by decide) (fun rest _ => rfl) trivial
    have closed := indices.joined (Phrase.close (m := .rightBracket) (by decide)) (by decide)
    have whole := (Variable.phrase b hb).append (opener.append_any closed)
      fun rest _ => by
        rw [String.toList_append]
        exact .inl (.cons (by decide))
    rw [← String.append_assoc, ← String.append_assoc] at whole
    exact whole.any
  | .deref _ b, ⟨_, hb⟩ => by
    rw [Variable.render, Variable.words]
    have caret : Phrase d Anything "^" [.mark .caret] := Phrase.close (m := .caret) (by decide)
    exact ((Variable.phrase b hb).append caret fun rest _ => .inl (.cons (by decide))).any

/-- What is printed for an expression are its words. -/
theorem Expr.phrase : ∀ (e : Expr) (outer : Nat), e.Printable d →
    Phrase d Ends (e.render outer) (e.words d outer)
  -- The recursion is that of the printer, with brackets in the same places on both sides.
  | .literal _ l, _, h => by
    rw [Expr.render, Expr.words]
    exact Literal.IsToken.phrase h (fun w _ rest hr => ⟨hr.apart, fun _ => hr⟩) nofun
  | .variable v, _, h => by
    rw [Expr.render, Expr.words]
    exact (Variable.phrase v h).mono fun _ ends => .inl ends.apart
  | .unary _ .not x, _, h => by
    rw [Expr.render, Expr.words]
    exact (Phrase.keyword_blank (k := .NOT) rfl).append_any (Expr.phrase x _ h)
  | .unary _ .neg x, _, h => by
    rw [Expr.render, Expr.words]
    refine Phrase.minus ?_
    split
    · exact Phrase.parens (Expr.phrase x _ h)
    · exact Expr.phrase x _ h
  | .binary _ op l r, outer, ⟨hl, hr⟩ => by
    rw [Expr.render, Expr.words]
    -- An operator stands between blanks, so it lets anything follow.
    have whole {left right : String} {ws ws' : List Word} (hl : Phrase d Ends left ws)
        (hr : Phrase d Ends right ws') : Phrase d Ends (left ++ " " ++ op.symbol ++ " " ++ right)
          (ws ++ op.word :: ws') := by
      have whole := (hl.joined op.phrase (by simp [closers, blanks])).append_any hr
      rwa [← String.append_assoc, ← String.append_assoc, List.append_assoc] at whole
    -- An operand has brackets of its own or not.
    have side (x : Expr) (p : Nat) (bracketed : Bool) (h0 : Phrase d Ends (x.render 0) (x.words d 0))
        (hp : Phrase d Ends (x.render p) (x.words d p)) :
        Phrase d Ends (if bracketed then parens (x.render 0) else x.render p)
          (if bracketed then parenWords (x.words d 0) else x.words d p) := by
      cases bracketed with
      | true => exact h0.parens
      | false => exact hp
    have both := whole (side l op.leftPrecedence (l.isNot && !op.isLogical) (Expr.phrase l _ hl)
      (Expr.phrase l _ hl)) (side r op.rightPrecedence (r.isNot && !op.isLogical)
        (Expr.phrase r _ hr) (Expr.phrase r _ hr))
    dsimp only
    split
    · exact both.parens
    · exact both
  | .paren _ x, _, h => by
    rw [Expr.render, Expr.words]
    exact (Expr.phrase x 0 h).parens
  | .call _ path args, _, ⟨hpath, _, hargs⟩ => by
    rw [Expr.render, Expr.words]
    exact hpath.phrase.append (Slot.commas (Arg.slotAll args hargs)).parens fun rest _ => by
      rw [parens, String.toList_append, String.toList_append]
      exact .cons (by decide)

/-- What is printed for an argument are its words. -/
theorem Arg.slot : ∀ a : Arg, a.Printable d → Slot d a.render (a.words d)
  | .positional _ x, h => by
    rw [Arg.render, Arg.words]
    exact (Expr.phrase x 0 h).slot
  | .named _ n x, ⟨hn, hx⟩ => by
    rw [Arg.render, Arg.words]
    have assign : Phrase d Anything " := " [.mark .assign] := Phrase.spaced_mark (m := .assign) rfl
    have name := (Phrase.name hn).apart.ends.joined assign (by decide)
    exact (name.append_any (Expr.phrase x 0 hx)).slot
  | .output _ n v negated, ⟨hn, hv⟩ => by
    rw [Arg.render, Arg.words]
    have arrow : Phrase d Anything " => " [.mark .arrow] := Phrase.spaced_mark (m := .arrow) rfl
    have name := (Phrase.name hn).apart.ends.joined arrow (by decide)
    have plain := name.append_any ((Variable.phrase v hv).mono fun _ ends => .inl (Ends.apart ends))
    cases negated with
    | false => simpa using plain.slot
    | true =>
      have negation : Phrase d Anything "NOT " [.keyword .NOT] :=
        Phrase.keyword_blank (k := .NOT) rfl
      simpa [String.append_assoc] using (negation.append_any plain).slot
  | .inferred _, _ => .empty

/-- Each expression of a list. -/
theorem Expr.phraseAll : ∀ xs : List Expr, Expr.PrintableAll d xs →
    List.Forall₂ (Phrase d Ends) (Expr.renderAll xs) (Expr.wordsEach d xs)
  | [], _ => .nil
  | x :: xs, ⟨hx, hxs⟩ => .cons (Expr.phrase x 0 hx) (Expr.phraseAll xs hxs)

/-- Each argument of a list. -/
theorem Arg.slotAll : ∀ xs : List Arg, Arg.PrintableAll d xs →
    List.Forall₂ (Slot d) (Arg.renderAll xs) (Arg.wordsEach d xs)
  | [], _ => .nil
  | x :: xs, ⟨hx, hxs⟩ => .cons (Arg.slot x hx) (Arg.slotAll xs hxs)

end

/-! ### Labels -/

/-- The literal may begin a label. -/
def Lexeme.isLabel : Lexeme → Bool
  | .integer _ | .real _ | .string _ => true
  | _ => false

/-- The literal may begin a label after a minus sign. -/
def Lexeme.isNumber : Lexeme → Bool
  | .integer _ | .real _ => true
  | _ => false

theorem Lexeme.not_isTime_of_isLabel {l : Lexeme} (h : l.isLabel = true) : isTime l = false := by
  cases l <;> first | rfl | cases h

theorem Literal.Value.isLabel_of_isNumber {v : Literal.Value} (h : v.isNumber = true) :
    v.isLabel = true := by
  cases v <;> first | rfl | cases h

/-- A time or a date is no label. -/
theorem not_isLabel_of_timeValue? {t : Token} {v : Literal.Value}
    (h : timeValue? t = some (.ok v)) : v.isLabel = false := by
  unfold timeValue? at h
  dsimp only at h
  split at h
  · split at h
    all_goals cases h
    rfl
  · split at h <;> cases h
    rfl
  · split at h <;> cases h
    rfl
  · split at h <;> cases h
    rfl
  · cases h

namespace Token.Means

variable {t : Token} {l : Literal}

theorem isLabel (h : t.Means l) (hl : l.value.isLabel = true) : t.lexeme.isLabel = true := by
  obtain plain | ⟨-, v, value, rfl⟩ := h
  · unfold plainLiteral? at plain
    split at plain
    all_goals cases plain
    all_goals first | exact absurd hl Bool.false_ne_true | (next lexeme => rw [lexeme]; rfl)
  · exact absurd hl (by rw [not_isLabel_of_timeValue? value]; exact Bool.false_ne_true)

theorem isNumber (h : t.Means l) (hl : l.value.isNumber = true) : t.lexeme.isNumber = true := by
  obtain plain | ⟨-, v, value, rfl⟩ := h
  · unfold plainLiteral? at plain
    split at plain
    all_goals cases plain
    all_goals first | exact absurd hl Bool.false_ne_true | (next lexeme => rw [lexeme]; rfl)
  · have label := Literal.Value.isLabel_of_isNumber hl
    exact absurd label (by rw [not_isLabel_of_timeValue? value]; exact Bool.false_ne_true)

end Token.Means

namespace Literal.IsToken

variable {l : Literal}

/-- A property of the tokens that mean the literal is one of its word. -/
theorem lexeme (h : l.IsToken d) {p : Lexeme → Bool}
    (hp : ∀ t : Token, t.Means l → p t.lexeme = true) :
    p (Word.ofText d l.text).lexeme = true := by
  obtain ⟨w, operand, written, means⟩ := h
  rw [← written, operand.ofText_eq]
  exact hp ⟨w.lexeme, w.text, .zero⟩ (means _ rfl)

/-- A literal that may begin a label stands before a mark. -/
theorem label_phrase (h : l.IsToken d) (hl : l.value.isLabel = true) :
    Phrase d Apart l.text [.ofText d l.text] := by
  refine h.phrase (fun w means rest apart => ⟨apart, fun time => ?_⟩) .nil
  have label : w.lexeme.isLabel = true := (means ⟨w.lexeme, w.text, .zero⟩ rfl).isLabel hl
  rw [Lexeme.not_isTime_of_isLabel label] at time
  cases time

end Literal.IsToken

/-- What is printed for a label stands before a mark. -/
theorem Expr.Labels.phrase : ∀ {e : Expr}, e.Labels d → Phrase d Apart e.text (e.words d 0)
  | .literal _ l, ⟨hl, h⟩ => by
    rw [text, render, words]
    exact h.label_phrase hl
  | .unary _ .neg (.literal _ l), ⟨hl, h⟩ => by
    rw [text, render, words]
    refine Phrase.minus ?_
    have number := h.label_phrase (Literal.Value.isLabel_of_isNumber hl)
    rw [render, words]
    split
    · exact number.ends.parens
    · exact number
  | .variable v, ⟨_, h⟩ => by
    rw [text, render, words]
    exact h.phrase.apart

theorem CaseSelector.Labels.phrase : ∀ {s : CaseSelector}, s.Labels d →
    Phrase d Apart s.text (s.words d)
  | .value _ x, h => Expr.Labels.phrase h
  | .range _ low high, ⟨hlow, hhigh⟩ => by
    rw [text, words]
    -- Two dots end a number before them, so the low bound needs only to be apart from a range.
    have range : Phrase d Anything ".." [.mark .range] :=
      Phrase.mark (m := .range) (by decide) (fun _ _ => rfl) trivial
    have whole := (hlow.phrase.append range fun rest _ => .range rest).append_any hhigh.phrase
    rwa [List.append_assoc] at whole

theorem Phrase.colon : Phrase d Ends ":" [.mark .colon] := by
  refine Phrase.mark (m := .colon) (by decide) (fun rest hr => ?_) nofun
  have other := hr.head (p := (· == '=')) (by decide)
  cases rest with
  | nil => rfl
  | cons c cs => simpa [Mark.endsBefore] using other c rfl

/-- The labels of a branch and their colon. -/
theorem CaseSelector.phrase_colon {selectors : List CaseSelector}
    (h : ∀ s ∈ selectors, s.Labels d) :
    Phrase d Ends (commas (selectors.map text) ++ ":")
      (commaWords (selectors.map (words d)) ++ [.mark .colon]) := by
  cases selectors with
  | nil => exact Phrase.colon
  | cons s ss =>
    -- Texts and words are taken side by side, one label at a time.
    have each : List.Forall₂ (Phrase d Apart) ((s :: ss).map text)
        ((s :: ss).map (words d)) := by
      rw [List.forall₂_map_left_iff, List.forall₂_map_right_iff, List.forall₂_same]
      exact fun x hx => (h x hx).phrase
    have labels := Phrase.commas each (List.cons_ne_nil _ _) fun rest => .cons (by decide)
    exact labels.append Phrase.colon fun rest _ => .cons (by decide)

/-! ### Statements -/

theorem Phrase.closing (k : Keyword) (hk : d.reserves k = true) :
    Phrase d Ends (k.spelling ++ ";") (closingWords k) :=
  ((keyword hk).apart.append (close (m := .semicolon) (by decide)) fun _ _ => .cons (by decide)).any

/-- An expression between two reserved words. -/
theorem Phrase.between (k k' : Keyword) {e : Expr} (h : e.Printable d)
    (hk : d.reserves k = true) (hk' : d.reserves k' = true) :
    Phrase d Ends (k.spelling ++ " " ++ e.text ++ (" " ++ k'.spelling))
      (.keyword k :: (e.words d 0 ++ [.keyword k'])) := by
  have whole := ((keyword_blank hk).append_any (e.phrase 0 h)).joined (blank_keyword hk')
    (by simp [closers, blanks])
  rwa [List.append_assoc] at whole

/-- The bounds of a loop. -/
theorem Phrase.forHead {control : String} {start stop : Expr}
    (hn : isIdentifier d control = true) (hstart : start.Printable d) (hstop : stop.Printable d) :
    Phrase d Ends ("FOR " ++ control ++ " := " ++ start.text ++ " TO " ++ stop.text)
      (.keyword .FOR :: .name control :: .mark .assign :: (start.words d 0 ++
        .keyword .TO :: stop.words d 0)) := by
  -- The words are put together from the left; each blank lets anything follow.
  have opening : Phrase d Anything "FOR " [.keyword .FOR] := keyword_blank (k := .FOR) rfl
  have assign : Phrase d Anything " := " [.mark .assign] := spaced_mark (m := .assign) rfl
  have upTo : Phrase d Anything " TO " [.keyword .TO] := spaced_keyword (k := .TO) rfl
  have target := (opening.append_any (name hn).apart.ends).joined assign (by decide)
  have whole := ((target.append_any (start.phrase 0 hstart)).joined upTo (by decide)).append_any
    (stop.phrase 0 hstop)
  simpa [Expr.text] using whole

theorem Phrase.semicolon {text : String} {ws : List Word} (h : Phrase d Ends text ws) :
    Phrase d Ends (text ++ ";") (ws ++ [.mark .semicolon]) := by
  have mark : Phrase d Ends ";" [.mark .semicolon] := (close (m := .semicolon) (by decide)).any
  exact h.joined mark (by decide)

section

variable {declared : List String}

/-- An opening line, statements, and lines after them. -/
theorem Lines.block {text : String} {ls ls' : List String} {ws ws' ws'' : List Word} (depth : Nat)
    (opening : Phrase d Ends text ws) (body : Lines d ls ws')
    (closing : Lines d ls' ws'') :
    Lines d (indented depth text :: ls ++ ls') (ws ++ (ws' ++ ws'')) := by
  have whole := ((Lines.line opening depth).append body).append closing
  simpa using whole

mutual

/-- What is printed for a statement are its words. -/
theorem Stmt.layout : ∀ (s : Stmt) (depth : Nat), s.Printable d declared →
    Lines d (s.lines depth) (s.words d)
  -- The recursion is that of the printer: a statement is one line, or an opening line with
  -- statements and a closing line, which `Lines.block` puts together.
  | .assignment _ target op value, depth, ⟨ht, hop, hv⟩ => by
    rw [Stmt.lines, Stmt.words]
    have mark : Phrase d Anything (" " ++ op.mark.symbol ++ " ") [.mark op.mark] := by
      refine Phrase.spaced (w := .mark op.mark) fun rest => ?_
      -- A compound sign stands alone only in a dialect that knows it, which is the condition on the
      -- sign.
      by_cases plain : op = .assign
      · subst plain
        exact Word.stands_mark d rfl
      · exact Word.stands_compound plain (hop.resolve_left plain) _
    -- What follows the target is a blank, so the target may end like any other expression.
    have left : Phrase d Ends target.render (target.words d) :=
      (target.phrase ht).mono fun _ ends => .inl ends.apart
    have whole := ((left.joined mark (by simp [closers, blanks])).append_any (value.phrase 0 hv)).semicolon
    refine .line ?_ depth
    rw [← String.append_assoc, ← String.append_assoc] at whole
    simpa [Expr.text] using whole
  | .ifThen _ (.mk _ condition body) elsifs none, depth, ⟨⟨hc, hb⟩, he⟩ => by
    rw [Stmt.lines, Stmt.words, IfBranch.words]
    -- The branches after the first hang on the closing line, and so does the `ELSE` part below.
    have opening : Phrase d Ends ("IF " ++ condition.text ++ " THEN") _ := .between .IF .THEN hc rfl rfl
    have closing : Phrase d Ends "END_IF;" _ := .closing .END_IF rfl
    have whole := Lines.block depth opening (Stmt.layoutAll body (depth + 1) hb)
      ((IfBranch.layoutAll elsifs depth he).append (.line closing depth))
    simpa using whole
  | .ifThen _ (.mk _ condition body) elsifs (some ss), depth, ⟨⟨hc, hb⟩, he, hss⟩ => by
    rw [Stmt.lines, Stmt.words, IfBranch.words]
    have opening : Phrase d Ends ("IF " ++ condition.text ++ " THEN") _ := .between .IF .THEN hc rfl rfl
    have otherwise : Phrase d Ends "ELSE" _ := (Phrase.keyword (k := .ELSE) rfl).apart.ends
    have closing : Phrase d Ends "END_IF;" _ := .closing .END_IF rfl
    have whole := Lines.block depth opening (Stmt.layoutAll body (depth + 1) hb)
      ((IfBranch.layoutAll elsifs depth he).append
        (.block depth otherwise (Stmt.layoutAll ss (depth + 1) hss) (.line closing depth)))
    simpa using whole
  | .caseOf _ selector branches none, depth, ⟨hs, hb⟩ => by
    rw [Stmt.lines, Stmt.words]
    have opening : Phrase d Ends ("CASE " ++ selector.text ++ " OF") _ := .between .CASE .OF hs rfl rfl
    have closing : Phrase d Ends "END_CASE;" _ := .closing .END_CASE rfl
    have whole := Lines.block depth opening
      (CaseBranch.layoutAll branches (depth + 1) hb) (.line closing depth)
    simpa using whole
  | .caseOf _ selector branches (some ss), depth, ⟨hs, hb, hss⟩ => by
    rw [Stmt.lines, Stmt.words]
    have opening : Phrase d Ends ("CASE " ++ selector.text ++ " OF") _ := .between .CASE .OF hs rfl rfl
    have otherwise : Phrase d Ends "ELSE" _ := (Phrase.keyword (k := .ELSE) rfl).apart.ends
    have closing : Phrase d Ends "END_CASE;" _ := .closing .END_CASE rfl
    have whole := Lines.block depth opening
      (CaseBranch.layoutAll branches (depth + 1) hb)
      (.block depth otherwise (Stmt.layoutAll ss (depth + 1) hss) (.line closing depth))
    simpa using whole
  -- The two cases differ in the words between the bounds and the `DO`.
  | .forLoop _ control start stop none body, depth, ⟨hn, hstart, hstop, _, hb⟩ => by
    rw [Stmt.lines, Stmt.words]
    have doing : Phrase d Ends " DO" [.keyword .DO] := Phrase.blank_keyword (k := .DO) rfl
    have opening := (Phrase.forHead hn hstart hstop).joined doing (by decide)
    have closing : Phrase d Ends "END_FOR;" _ := .closing .END_FOR rfl
    have whole := Lines.block depth opening (Stmt.layoutAll body (depth + 1) hb)
      (.line closing depth)
    simpa using whole
  | .forLoop _ control start stop (some step) body, depth, ⟨hn, hstart, hstop, hstep, hb⟩ => by
    rw [Stmt.lines, Stmt.words]
    have by_ : Phrase d Ends (" BY " ++ step.text) _ :=
      (Phrase.spaced_keyword (k := .BY) rfl).append_any (step.phrase 0 (hstep step rfl))
    have doing : Phrase d Ends " DO" [.keyword .DO] := Phrase.blank_keyword (k := .DO) rfl
    have opening := ((Phrase.forHead hn hstart hstop).joined by_ (by simp [closers, blanks])).joined doing
      (by decide)
    have closing : Phrase d Ends "END_FOR;" _ := .closing .END_FOR rfl
    have whole := Lines.block depth opening (Stmt.layoutAll body (depth + 1) hb)
      (.line closing depth)
    simpa using whole
  | .whileLoop _ condition body, depth, ⟨hc, hb⟩ => by
    rw [Stmt.lines, Stmt.words]
    have opening : Phrase d Ends ("WHILE " ++ condition.text ++ " DO") _ := .between .WHILE .DO hc rfl rfl
    have closing : Phrase d Ends "END_WHILE;" _ := .closing .END_WHILE rfl
    have whole := Lines.block depth opening (Stmt.layoutAll body (depth + 1) hb)
      (.line closing depth)
    simpa using whole
  | .repeatLoop _ body condition, depth, ⟨hb, hc⟩ => by
    rw [Stmt.lines, Stmt.words]
    have opening : Phrase d Ends "REPEAT" _ := (Phrase.keyword (k := .REPEAT) rfl).apart.ends
    -- The condition is a line of its own here, behind the body.
    have until_ : Phrase d Ends ("UNTIL " ++ condition.text) _ :=
      (Phrase.keyword_blank (k := .UNTIL) rfl).append_any (condition.phrase 0 hc)
    have closing : Phrase d Ends "END_REPEAT;" _ := .closing .END_REPEAT rfl
    have whole := Lines.block depth opening (Stmt.layoutAll body (depth + 1) hb)
      ((Lines.line until_ depth).append (.line closing depth))
    simpa using whole
  | .exitLoop _, depth, _ => .line (Phrase.closing .EXIT rfl) depth
  | .nextPass _, depth, _ => .line (Phrase.closing .CONTINUE rfl) depth
  | .leave _ none, depth, _ => .line (Phrase.closing .RETURN rfl) depth
  | .leave _ (some x), depth, hx => by
    rw [Stmt.lines, Stmt.words]
    have value := (Phrase.keyword_blank (k := .RETURN) rfl).append_any (x.phrase 0 (hx x rfl))
    exact .line value.semicolon depth
  | .call _ callSpan path args, depth, ⟨hpath, _, visible, hargs⟩ => by
    rw [Stmt.lines, Stmt.words]
    -- A call that is a statement is printed as the expression is, and then closed.
    have call := Expr.phrase (.call callSpan path args) 0 ⟨hpath, visible, hargs⟩
    have whole := call.semicolon
    rw [Expr.words, List.append_assoc] at whole
    exact .line whole depth
  | .invoke _ callee args, depth, ⟨hcallee, _, _, _, hargs⟩ => by
    rw [Stmt.lines, Stmt.words]
    have call : Phrase d Ends (callee.render ++ parens (commas (Arg.renderAll args))) _ :=
      (callee.phrase hcallee).append (Slot.commas (Arg.slotAll args hargs)).parens fun rest _ => by
        rw [parens, String.toList_append, String.toList_append]
        -- A bracket follows the name of what is called, so the name ends there.
        exact .inl (.cons (by decide))
    have whole := call.semicolon
    rw [List.append_assoc] at whole
    exact .line whole depth
  | .empty _, depth, _ => by
    have mark : Phrase d Ends ";" [.mark .semicolon] := (Phrase.close (m := .semicolon) (by decide)).any
    exact .line mark depth

  | .goto _ name, depth, ⟨hd, hn⟩ => by
    rw [Stmt.lines, Stmt.words]
    have jump : Phrase d Anything "GOTO " [.keyword .GOTO] := Phrase.keyword_blank (k := .GOTO) hd
    exact .line (jump.append_any (Phrase.name hn).apart.ends).semicolon depth
  | .label _ name, depth, ⟨_, hn⟩ => by
    rw [Stmt.lines, Stmt.words]
    -- Only a label ends without a semicolon.
    have target := (Phrase.name hn).append (G := Ends) Phrase.colon fun _ _ =>
      (Apart.cons (by decide)).nameEnds
    exact .line target depth

/-- What is printed for statements are their words. -/
theorem Stmt.layoutAll : ∀ (ss : List Stmt) (depth : Nat), Stmt.PrintableAll d declared ss →
    Lines d (Stmt.linesAll depth ss) (Stmt.wordsAll d ss)
  | [], _, _ => .nil
  | s :: ss, depth, ⟨hs, hss⟩ => (Stmt.layout s depth hs).append (Stmt.layoutAll ss depth hss)

/-- What is printed for branches are their words. -/
theorem IfBranch.layoutAll : ∀ (bs : List IfBranch) (depth : Nat),
    IfBranch.PrintableAll d declared bs → Lines d (IfBranch.linesAll depth bs) (IfBranch.wordsAll d bs)
  | [], _, _ => .nil
  | .mk _ condition body :: bs, depth, ⟨⟨hc, hb⟩, hbs⟩ => by
    rw [IfBranch.linesAll, IfBranch.wordsAll, IfBranch.words]
    have opening : Phrase d Ends ("ELSIF " ++ condition.text ++ " THEN") _ := .between .ELSIF .THEN hc rfl rfl
    have whole := Lines.block depth opening (Stmt.layoutAll body (depth + 1) hb)
      (IfBranch.layoutAll bs depth hbs)
    simpa using whole

/-- What is printed for branches are their words. -/
theorem CaseBranch.layoutAll : ∀ (bs : List CaseBranch) (depth : Nat),
    CaseBranch.PrintableAll d declared bs →
      Lines d (CaseBranch.linesAll depth bs) (CaseBranch.wordsAll d bs)
  | [], _, _ => .nil
  | .mk _ selectors body :: bs, depth, ⟨⟨_, hs, hb, _⟩, hbs⟩ => by
    rw [CaseBranch.linesAll, CaseBranch.wordsAll, CaseBranch.words]
    have whole := Lines.block depth (CaseSelector.phrase_colon hs)
      (Stmt.layoutAll body (depth + 1) hb) (CaseBranch.layoutAll bs depth hbs)
    simpa using whole

end

end

/-- A text of statements is cut into their words. -/
theorem Stmt.textAll_cut {declared : List String} {ss : List Stmt}
    (h : Stmt.PrintableAll d declared ss) (depth : Nat) :
    Cut d (Stmt.textAll ss depth).toList (Stmt.wordsAll d ss) [] ∧
      (Stmt.textAll ss depth).toList.head? ≠ some '\ufeff' := by
  have whole := Stmt.layoutAll ss depth h
  constructor
  · have cut := whole.cut []
    rwa [List.append_nil] at cut
  · exact fun first => whole.opens _ first rfl

end Plc

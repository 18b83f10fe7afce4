/-
The variables of an expression are those that its tokens name.

Each rule for expressions tells the names of its result: every name that it passes over and that
stands for a variable is one of them.

* `variableWith_told`, `callArgs_told` — the rules that other rules use;
* `expression_tells` — an expression.
-/
import Plc.Proofs.Mention.Told
import Plc.Proofs.Yield.Expr

namespace Plc.Grammar

variable {x : Script} {D N : List String} {calls : List Bool} {A : (Nat → Token) → Prop}
  {L : List Token → Prop} {α : Type} {u p e : Rule Expr}

/-! ### Operators -/

/-- An expression was passed over after the given names. -/
abbrev Said (x : Script) (D N : List String) (calls : List Bool) (e : Expr) : Assertion :=
  Told x D (N ++ e.names D) calls Any

/-- An operator comes after an expression. -/
abbrev SaidBefore (x : Script) (D N : List String) (calls : List Bool) (e : Expr)
    (op : BinaryOp) : Assertion :=
  Told x D (N ++ e.names D) calls fun f => BinaryOp.ofLexeme? (f 0).lexeme = some op

theorem operatorFrom_told (least : Nat) (left : Expr) :
    Triple (Said x D N calls left) (operatorFrom least left)
      (Sum.elim (Said x D N calls) (SaidBefore x D N calls left)) := by
  refine Passed.lexeme.bind fun l => ?_
  split
  · next op known =>
    split
    · refine .pure fun s c h => h.weaken (fun _ _ => trivial) fun f hf => ?_
      rw [hf.2, known]
    · exact .pure fun s c h => h.told
  · exact .pure fun s c h => h.told

theorem operation_told {right : BinaryOp → Rule Expr}
    (h : ∀ op, Tells x D (right op) (Expr.names D)) (left : Expr) (op : BinaryOp) :
    Triple (SaidBefore x D N calls left op) (operation right left op)
      (Sum.elim (Said x D N calls) (Said x D N calls)) := by
  have facts : isQuiet op.terminal.lexeme = true ∧ callsPast op.terminal.lexeme calls = calls := by
    cases op <;> exact ⟨rfl, rfl⟩
  refine Passed.passQuiet op.terminal.lexeme facts.1 (fun g hg => BinaryOp.eq_terminal hg) fun t => ?_
  rw [facts.2]
  refine ((h op _ _).imp fun s c h => h.told).bind fun y => ?_
  refine Triple.bind (Passed.node _ fun span n hn => ?_) fun e => .pure fun s c h => h
  simpa [Expr.mem_names_binary] using hn

/-- Operands and operators in turn. -/
theorem climb_tells (hu : Tells x D u (Expr.names D)) (hp : Tells x D p (Expr.names D))
    (tighter least : Nat) : Tells x D (climb u p tighter least) (Expr.names D) := by
  induction tighter generalizing least with
  | zero => exact hu
  | succ tighter ih =>
    intro N calls
    refine (hu N calls).bind fun first => Triple.passes.bind fun n => ?_
    refine Triple.repeating (I := Said x D N calls) (J := SaidBefore x D N calls)
      (operatorFrom_told least) (operation_told fun op => ?_) n first
    split
    · exact hp
    · exact ih _

theorem binaryFrom_tells (hu : Tells x D u (Expr.names D)) (hp : Tells x D p (Expr.names D))
    (least : Nat) : Tells x D (binaryFrom u p least) (Expr.names D) :=
  climb_tells hu hp _ _

/-! ### Parts of operands -/

/-- No parenthesis is a part of an operand, and no word that opens a region. -/
theorem callsPast_of_isInOperand {l : Lexeme} (h : l.isInOperand = true) (calls : List Bool) :
    (l ≠ .mark .leftParen ∧ l ≠ .keyword .REGION) ∧ callsPast l calls = calls := by
  refine ⟨⟨fun same => ?_, fun same => ?_⟩, if_neg fun closes => ?_⟩
  · rw [same] at h
    cases h
  · rw [same] at h
    cases h
  · rw [Terminal.is_lexeme closes] at h
    cases h

/-- A token of an operand that stands for no variable is passed over. -/
theorem Passed.operand (part : ∀ g, A g → (g 0).lexeme.isInOperand = true)
    (never : ∀ g ts after, A g → L ts →
      (∀ m : Mark, after.head?.any (·.lexeme.is m) = (g 1).lexeme.is m) →
      ¬StandsAsVariable D ts.reverse (g 0) after) :
    Triple (Passed x D N calls L A) Grammar.advance fun t =>
      Passed x D N calls (EndsWith L t) fun g => A (cons t g) := by
  refine (Passed.step (List.Subset.refl N) (fun g hg => ?_)
    fun g ts after hg last _ next stands => absurd stands (never g ts after hg last next)).post
      fun t s c h => ?_
  · exact ⟨Lexeme.isSound_of_isInOperand (part g hg), (callsPast_of_isInOperand (part g hg) calls).1⟩
  · have known : t.lexeme.isInOperand = true := h.fact fun g hg => part _ hg
    rwa [(callsPast_of_isInOperand known calls).2] at h

/-! ### Literals -/

/-- A token of an operand that is no name is passed over. -/
theorem quiet_of_plainLiteral? {t : Token} {l : Literal} (h : plainLiteral? t = some l)
    (calls : List Bool) : isQuiet t.lexeme = true ∧ callsPast t.lexeme calls = calls := by
  unfold plainLiteral? at h
  split at h
  all_goals first
    | cases h
      next known => exact ⟨by rw [known]; rfl, by rw [known]; rfl⟩
    | cases h

theorem quiet_of_timeValue? {t : Token} {v : Except Fault Literal.Value}
    (h : timeValue? t = some v) (calls : List Bool) :
    isQuiet t.lexeme = true ∧ callsPast t.lexeme calls = calls := by
  unfold timeValue? at h
  dsimp only at h
  split at h
  all_goals first
    | next known => exact ⟨by rw [known]; rfl, by rw [known]; rfl⟩
    | cases h

theorem literal_told {t : Token} {l : Literal} (h : plainLiteral? t = some l) :
    Triple (Passed x D N calls L fun f => f 0 = t) (literal t l) fun _ => Told x D N calls Any := by
  obtain ⟨silent, same⟩ := quiet_of_plainLiteral? h calls
  refine Passed.passQuiet t.lexeme silent (fun g hg => by rw [hg]) fun _ => ?_
  rw [same]
  have build {A : (Nat → Token) → Prop} : Triple (Passed x D N calls (Behind t.lexeme) A)
      (node t.span fun s => Expr.literal s l) fun _ => Told x D N calls Any :=
    Passed.stable.node _ fun span s c h => h.told
  split
  · exact (Triple.checkLimit _ _ _).bind fun _ => build
  · exact build

theorem timeLiteral_told {t : Token} {v : Except Fault Literal.Value} (h : timeValue? t = some v) :
    Triple (Passed x D N calls L fun f => f 0 = t) (timeLiteral t v) (Said x D N calls) := by
  obtain ⟨silent, same⟩ := quiet_of_timeValue? h calls
  refine Passed.passQuiet t.lexeme silent (fun g hg => by rw [hg]) fun _ => ?_
  rw [same]
  split
  · exact Passed.node _ fun span => List.subset_append_left _ _
  · exact .throw _

theorem typedNode_told (first : Token) (v : Literal.Value) :
    Triple (Passed x D N calls L A) (typedNode first v) (Said x D N calls) := by
  refine (Triple.spanFrom first.span).bind fun span => Triple.sourceText.bind fun source => ?_
  exact Triple.imp (Passed.node _ fun span => List.subset_append_left _ _) fun s c h => h.1.1

/-- Neither the type before the `#` of a literal nor the name after it stands for a variable. -/
theorem typedLiteral_told :
    Triple (Passed x D N calls L fun f =>
        beginsTyped (f 0).lexeme = true ∧ (f 1).lexeme.is Mark.hash = true)
      typedLiteral (Said x D N calls) := by
  have type : Triple (Passed x D N calls L fun f =>
      beginsTyped (f 0).lexeme = true ∧ (f 1).lexeme.is Mark.hash = true) advance
      fun _ => Told x D N calls Any := by
    refine (Passed.operand (fun g hg => isInOperand_of_beginsTyped hg.1)
      fun g ts after hg _ next stands => ?_).post fun t s c h => h.told
    have before := stands.type
    rw [next, hg.2] at before
    cases before
  refine type.bind fun first => ?_
  refine (Passed.expect Mark.hash rfl).bind fun hash => ?_
  refine (Passed.accept Mark.minus rfl).bind fun minus => ?_
  -- without a sign the value is right behind the `#`, and a name there stands for no variable
  let H (ts : List Token) : Prop := minus = false → Behind (.mark .hash) ts
  refine Triple.imp (P := Passed x D N calls H Any) ?_ fun s c h => ?_
  · refine Passed.peek.bind fun t => ?_
    refine Triple.imp (P := Passed x D N calls H fun f => f 0 = t) ?_
      fun s c h => h.weaken (fun _ h => h) fun _ hf => hf.2
    have value {l : Literal} (known : plainLiteral? t = some l) (v : Literal.Value) :
        Triple (Passed x D N calls H fun f => f 0 = t)
          (do let _ ← literal t l; typedNode first v) (Said x D N calls) :=
      (literal_told known).bind fun _ => typedNode_told first v
    split
    · next isName =>
      refine .ite (fun _ => .failExpecting _) fun no => ?_
      refine Triple.bind (R := fun _ => Told x D N calls Any) ?_ fun _ => typedNode_told first _
      refine (Passed.operand (fun g hg => by rw [hg, isName]; rfl)
        fun g ts after hg last _ stands => ?_).post fun _ s c h => h.told
      have before := stands.typed
      rw [(last (Bool.eq_false_iff.2 no)).head?_any] at before
      cases before
    · next known => exact value known _
    · next known => exact value known _
    · exact .failExpecting _
    · next known _ _ _ _ => exact .ite (fun _ => .failExpecting _) fun _ => value known _
    · exact .failExpecting _
  · cases minus with
    | true => exact h.weaken (fun _ _ no => nomatch no) fun _ hf => hf
    | false => exact h.weaken (fun _ hash _ => hash) fun _ hf => hf

/-! ### Lists -/

section

variable {item : Rule α} {spanOf : α → Span} {names : α → List String}

/-- One item or more, with commas between them. -/
theorem commaList_told (h : Tells x D item names) :
    Tells x D (commaList item spanOf) fun as => as.flatMap names := by
  intro N calls
  let I (as : List α) : Assertion := Told x D (N ++ as.flatMap names) calls Any
  refine Triple.imp (Triple.commaList (I := I) (J := I) (fun as => ?_) fun as => ?_) fun s c h => ?_
  · refine (Passed.accept Mark.comma rfl).post fun r s c h => ?_
    cases r <;> exact h.told
  · refine (h _ _).post fun a s c h => h.mono ?_
    simp [List.flatMap_append]
  · show Told x D (N ++ []) calls Any s c
    rwa [List.append_nil]

end

/-! ### Variables -/

/-- How the tokens of a dotted name end.  A plain name without points is the last token, and what was
told before it is still known: whether it stands for a variable is open until it is known if a call
begins with it. -/
def EndsPath (x : Script) (D N : List String) (v : Variable) (ts : List Token) : Prop :=
  ∀ p, v.path? = some p → endsMember ts = true ∧
    (v.isPlain = true → pathFront p ∈ v.names D ∧
      ('.' ∉ p.toList → ∃ front t, ts = front ++ [t] ∧ t.lexeme = .name ∧ t.text = p ∧ Names x D front N))

/-- A variable was passed over after the given names. -/
abbrev SaidVariable (x : Script) (D N : List String) (calls : List Bool) (v : Variable) :
    Assertion :=
  Passed x D (N ++ v.names D) calls (EndsPath x D N v) Any

/-- A name in quotes, or after a `#`, is no name that stands for a variable. -/
theorem named_told (t : Token) (name : String) {style : NameStyle} (marked : style ≠ .plain)
    (last : ∀ ts, L ts → endsMember ts = true) :
    Triple (Passed x D N calls L A) (node t.span fun s => Variable.named s name style)
      (SaidVariable x D N calls) := by
  refine Passed.stable.node _ fun span s c h => ?_
  refine (h.mono (List.subset_append_left _ _)).weaken (fun ts ends p path => ⟨last ts ends, fun plain => ?_⟩)
    fun _ _ => trivial
  exact absurd (beq_iff_eq.1 plain) marked

/-- A name after a `#` stands for no variable. -/
theorem expectAnyName_hashed (expected : String) :
    Triple (Passed x D N calls (Behind (.mark .hash)) A) (expectAnyName expected)
      fun _ => Passed x D N calls (fun ts => endsMember ts = true) Any := by
  have pass {l : Lexeme} (member : isMemberName l = true) :
      Triple (Passed x D N calls (Behind (.mark .hash)) fun f => A f ∧ (f 0).lexeme = l) advance
        fun _ => Passed x D N calls (fun ts => endsMember ts = true) Any := by
    refine (Passed.operand (fun g hg => isInOperand_of_isMemberName (by rwa [hg.2]))
      fun g ts after _ last _ stands => ?_).post fun t s c h => ?_
    · have before := stands.typed
      rw [last.head?_any] at before
      cases before
    · have known : t.lexeme = l := h.fact fun g hg => hg.2
      exact h.weaken (fun ts after => after.endsMember.trans (known ▸ member)) fun _ _ => trivial
  refine Passed.lexeme.bind fun l => ?_
  split
  · exact pass rfl
  · exact Passed.dialect (.ite (fun _ => pass rfl) fun _ => .failExpecting _)
  · exact .failExpecting _

theorem variableRoot_told :
    Triple (Passed x D N calls L A) variableRoot (SaidVariable x D N calls) := by
  refine Passed.peek.bind fun t => Passed.dialect ?_
  split
  · next isName =>
    -- what was told before the name is kept, in case that a call begins with it
    refine Triple.imp (P := Passed x D N calls (Names x D · N) fun f => f 0 = t) ?_
      fun s c ⟨ts, h, opened, names, _⟩ => ⟨ts, h.weaken fun _ hf => hf.2, opened, names, names⟩
    refine Triple.bind (R := fun _ => Passed x D (N ++ [t.text]) calls
      (EndsPath x D N (.named t.span t.text .plain)) Any) ?_ fun _ => ?_
    · refine (Passed.name (List.subset_append_left N [t.text])
        (fun g hg => by rw [hg, isName]) fun g ts after hg _ _ _ _ => by rw [hg]; simp).post ?_
      intro u s c h
      obtain rfl : u = t := h.fact fun g hg => hg
      have dotless := x.dotless h.mem_raw isName
      refine h.weaken (fun ts after p path => ?_) fun _ _ => trivial
      cases path
      refine ⟨?_, fun _ => ⟨?_, fun _ => ?_⟩⟩
      · rw [after.endsMember, isName]
        rfl
      · rw [pathFront_of_dotless dotless]
        exact List.mem_singleton_self _
      · obtain ⟨front, parts, told⟩ := after
        exact ⟨front, u, parts, isName, rfl, told⟩
    · exact Passed.stable.node _ fun span s c h => h.weaken (fun ts h p path => h p path) fun _ h => h
  · next name quoted =>
    refine .ite (fun _ => ?_) fun _ => .failInvalid _
    refine Passed.passQuiet t.lexeme (by rw [quoted]; rfl) (fun g hg => by rw [hg.2]) fun _ => ?_
    rw [quoted]
    exact named_told t name (by decide) fun ts last => last.endsMember
  · next hash =>
    refine .ite (fun _ => ?_) fun _ => .failInvalid _
    refine Passed.passQuiet t.lexeme (by rw [hash]; rfl) (fun g hg => by rw [hg.2]) fun _ => ?_
    rw [hash]
    exact (expectAnyName_hashed _).bind fun name => named_told t _ (by decide) fun ts last => last
  · next known =>
    refine Passed.passQuiet t.lexeme (by rw [known]; rfl) (fun g hg => by rw [hg.2]) fun _ => ?_
    rw [known]
    refine Passed.stable.node _ fun span s c h => ?_
    refine (h.mono (List.subset_append_left _ _)).weaken (fun ts _ p path => by cases path) fun _ _ => trivial
  · exact .failInvalid _

/-- A name after a point stands for no variable. -/
theorem member_told {v : Variable} :
    Triple (Passed x D (N ++ v.names D) calls (EndsPath x D N v) fun f =>
        (f 0).lexeme.is Mark.dot = true ∧ isMemberName (f 1).lexeme = true)
      (do
        let _ ← advance
        let member ← advance
        return Sum.inr (← node v.span fun s => .member s v member.nameText))
      (Sum.elim (SaidVariable x D N calls) (SaidVariable x D N calls)) := by
  -- the front of the path is that of the base, whichever tokens come after
  refine .given (φ := ∀ p, v.path? = some p → v.isPlain = true → pathFront p ∈ v.names D)
    (fun s c ⟨ts, _, _, _, ends⟩ p path plain => ((ends p path).2 plain).1) fun front => ?_
  refine Passed.passQuiet (.mark .dot) rfl (fun g hg => Terminal.is_lexeme hg.1) fun dot => ?_
  refine Triple.bind (R := fun m => Passed x D (N ++ v.names D) calls
    (fun ts => endsMember ts = true) Any) ?_ fun m => ?_
  · refine Triple.imp (P := Passed x D (N ++ v.names D) calls (Behind (.mark .dot)) fun f =>
      isMemberName (f 0).lexeme = true) ?_ fun s c h => h.weaken (fun _ h => h) fun _ hf => hf.2
    refine (Passed.operand (fun g hg => isInOperand_of_isMemberName hg)
      fun g ts after _ last _ stands => ?_).post fun m s c h => ?_
    · have before := stands.member
      rw [last.head?_any] at before
      cases before
    · have member : isMemberName m.lexeme = true := h.fact fun g hg => hg
      exact h.weaken (fun ts after => after.endsMember.trans member) fun _ _ => trivial
  · refine Triple.bind (R := SaidVariable x D N calls) (Passed.stable.node _ fun span s c h => ?_)
      fun _ => .pure fun s c h => h
    rw [SaidVariable, Variable.names_member]
    refine h.weaken (fun ts last p path => ?_) fun _ h => h
    obtain ⟨q, base, rfl⟩ := Option.map_eq_some_iff.1 path
    refine ⟨last, fun plain => ⟨?_, fun dotless => absurd ?_ dotless⟩⟩
    · rw [pathFront_member, Variable.names_member]
      exact front q base plain
    · simp [String.toList_append]

theorem variableAccess_told (he : Tells x D e (Expr.names D)) (v : Variable) :
    Triple (SaidVariable x D N calls v) (variableAccess e v)
      (Sum.elim (SaidVariable x D N calls) (SaidVariable x D N calls)) := by
  refine (Passed.sees _).bind fun dot => (Passed.lexemeAt 1).bind fun l => .ite (fun yes => ?_) fun _ => ?_
  · rw [Bool.and_eq_true] at yes
    refine member_told.imp fun s c h => h.weaken (fun _ h => h) fun f hf => ?_
    rw [hf.1.2, hf.2]
    exact yes
  refine (Passed.sees _).bind fun bracket => .ite (fun yes => ?_) fun _ => ?_
  · subst yes
    refine Passed.passQuiet (.mark .leftBracket) rfl (fun g hg => Terminal.is_lexeme hg.2) fun t => ?_
    refine ((commaList_told he _ _).imp fun s c h => h.told).bind fun is => ?_
    refine (Passed.expectClosing Mark.rightBracket _ _ rfl).bind fun _ => ?_
    refine (Passed.stable.node (Q := SaidVariable x D N calls) _ fun span s c h => ?_).bind fun _ =>
      .pure fun s c h => h
    refine (h.mono fun n hn => ?_).weaken (fun ts _ p path => by cases path) fun _ hf => hf
    simpa [Variable.mem_names_element] using hn
  refine (Passed.sees _).bind fun caret => Passed.dialect (.ite (fun yes => ?_) fun _ => ?_)
  · rw [Bool.and_eq_true] at yes
    obtain ⟨rfl, -⟩ := yes
    refine Passed.passQuiet (.mark .caret) rfl (fun g hg => Terminal.is_lexeme hg.2) fun t => ?_
    refine (Passed.stable.node (Q := SaidVariable x D N calls) _ fun span s c h => ?_).bind fun _ =>
      .pure fun s c h => h
    refine (h.mono ?_).weaken (fun ts _ p path => by cases path) fun _ _ => trivial
    rw [Variable.names_deref]
    exact List.Subset.refl _
  · exact .pure fun s c h => h.weaken (fun _ h => h) fun _ _ => trivial

/-- A variable is told. -/
theorem variableWith_told (he : Tells x D e (Expr.names D)) :
    Triple (Passed x D N calls L A) (variableWith e) (SaidVariable x D N calls) := by
  refine variableRoot_told.bind fun root => Triple.passes.bind fun n => ?_
  exact Triple.repeating (I := SaidVariable x D N calls) (J := fun v _ => SaidVariable x D N calls v)
    (fun v => Triple.pure (a := Sum.inr ()) fun s c h => h)
    (fun v _ => variableAccess_told he v) n root

/-! ### Calls -/

/-- The name of an argument and the mark after it stand for no variable. -/
theorem argumentName_told {β : Type} (m : Mark) (mark : m = .assign ∨ m = .arrow)
    {f : Token → Rule β} {Q : β → Assertion}
    (known : ∀ g, A g → (g 0).lexeme.isName = true ∧ (g 1).lexeme.is m = true)
    (hf : ∀ t, Triple (Told x D N (true :: calls) Any) (f t) Q) :
    Triple (Passed x D N (true :: calls) L A) (advance >>= fun t => advance >>= fun _ => f t) Q := by
  refine (Passed.name (List.Subset.refl _) (fun g hg => Lexeme.isName_iff.1 (known g hg).1)
    fun g ts after hg _ inside next stands => ?_).bind fun t => ?_
  · have none := stands.not_argument (congrArg List.head? inside) mark
    rw [next, (known g hg).2] at none
    cases none
  · have silent : isQuiet (.mark m) = true ∧ callsPast (.mark m) (true :: calls) = true :: calls := by
      obtain rfl | rfl := mark <;> exact ⟨rfl, rfl⟩
    refine Passed.passQuiet (.mark m) silent.1 (fun g hg => Terminal.is_lexeme (known _ hg).2) fun _ => ?_
    rw [silent.2]
    exact (hf t).imp fun s c h => h.told

/-- An argument is told; its own name stands for no variable. -/
theorem argument_told (he : Tells x D e (Expr.names D)) :
    Triple (Told x D N (true :: calls) Any) (argument e)
      fun a => Told x D (N ++ a.names D) (true :: calls) Any := by
  -- An argument says what its expression says, whichever kind it is.
  have whole {start : Span} {y : Expr} {build : Span → Arg}
      (same : ∀ span, (build span).expr? = some y) :
      Triple (Told x D (N ++ y.names D) (true :: calls) Any) (node start build)
        fun a => Told x D (N ++ a.names D) (true :: calls) Any := by
    refine Passed.node _ fun span => ?_
    simp [Arg.names, same]
  -- the target of an output is a variable
  have output {t : Token} (build : Span → Variable → Arg)
      (same : ∀ span v, (build span v).expr? = some (.variable v)) :
      Triple (Told x D N (true :: calls) Any) (do
          let target ← variableWith e
          node t.span fun s => build s target)
        fun a => Told x D (N ++ a.names D) (true :: calls) Any :=
    (variableWith_told he).bind fun v => (whole fun span => same span v).imp fun s c h => h.told
  refine Passed.peek.bind fun start => (Passed.lexemeAt 1).bind fun next => .ite (fun yes => ?_) fun _ => ?_
  · rw [Bool.and_eq_true] at yes
    refine argumentName_told .assign (.inl rfl) (fun g hg => ?_) fun _ => ?_
    · rw [hg.1.2, hg.2]
      exact yes
    · exact (he _ _).bind fun value => whole fun span => rfl
  refine .ite (fun yes => ?_) fun _ => (Passed.lexemeAt 2).bind fun third => .ite (fun yes => ?_) fun _ => ?_
  · rw [Bool.and_eq_true] at yes
    refine argumentName_told .arrow (.inr rfl) (fun g hg => ?_) fun _ => ?_
    · rw [hg.1.2, hg.2]
      exact yes
    · exact output (fun s v => .output s start.text v false) fun _ _ => rfl
  · simp only [Bool.and_eq_true] at yes
    obtain ⟨⟨negation, name⟩, arrow⟩ := yes
    refine Passed.passQuiet (.keyword .NOT) rfl (fun g hg => ?_) fun _ => ?_
    · rw [hg.1.1.2]
      exact Terminal.is_lexeme negation
    refine argumentName_told .arrow (.inr rfl) (fun g hg => ?_) fun name => ?_
    · rw [← hg.1.2] at name
      rw [← hg.2] at arrow
      exact ⟨name, arrow⟩
    · exact output (fun s v => .output s name.text v true) fun _ _ => rfl
  · exact (Triple.imp (he _ _) fun s c h => h.told).bind fun value => whole fun span => rfl

theorem argumentOrGap_told (he : Tells x D e (Expr.names D)) :
    Triple (Told x D N (true :: calls) Any) (argumentOrGap e)
      fun a => Told x D (N ++ a.names D) (true :: calls) Any := by
  refine (Passed.sees _).bind fun comma => (Passed.sees _).bind fun close => .ite (fun _ => ?_) fun _ => ?_
  · refine Passed.dialect (.ite (fun _ => ?_) fun _ => .failInvalid _)
    exact Passed.peek.bind fun t => Passed.node _ fun span => List.subset_append_left _ _
  · exact (argument_told he).imp fun s c h => h.told

/-- The arguments of a call are told, inside the parentheses of the call. -/
theorem callArgs_told (he : Tells x D e (Expr.names D)) (last : ∀ ts, L ts → endsMember ts = true) :
    Triple (Passed x D N calls L A) (callArgs e)
      fun as => Told x D (N ++ as.flatMap (Arg.names D)) calls Any := by
  refine (Passed.expectOpening last).bind fun opener => ?_
  refine (Passed.accept Mark.rightParen rfl).bind fun empty => .ite (fun yes => ?_) fun no => ?_
  · subst yes
    exact .pure fun s c h => h.told.mono (List.subset_append_left _ _)
  rw [Bool.not_eq_true] at no
  subst no
  let I (as : List Arg) : Assertion :=
    Told x D (N ++ as.flatMap (Arg.names D)) (true :: calls) Any
  have args (n : Nat) : Triple (I []) (listed (return true) (argumentOrGap e) Arg.span n 0) I := by
    refine Triple.listed (I := I) (J := I) (K := I) (fun as => Triple.pure (a := true) fun s c h => h)
      (fun as => ?_) (fun as _ _ => Triple.checkSize _ _) (fun as => ?_) n 0 []
    · refine (Passed.accept Mark.comma rfl).post fun r s c h => ?_
      cases r <;> exact h.told
    · refine (argumentOrGap_told he).post fun a s c h => h.mono ?_
      simp [List.flatMap_append]
  refine Triple.passes.bind fun n => (Triple.imp (args n) fun s c h => ?_).bind fun as => ?_
  · exact h.told.mono (List.subset_append_left _ _)
  · exact (Passed.expectClosing Mark.rightParen _ _ rfl).bind fun _ => .pure fun s c h => h.told

/-- The names that a callee tells: none where its first name is not a plain one. -/
def calleeTold (D : List String) (v : Variable) (callee : String) : List String :=
  if v.isPlain then calleeNames D callee else []

theorem calleeTold_subset (D : List String) (v : Variable) (callee : String) :
    calleeTold D v callee ⊆ calleeNames D callee := by
  unfold calleeTold
  split
  · exact List.Subset.refl _
  · exact List.nil_subset _

/-- The name in front of the parentheses of a call is told if it is declared; as a name of the
variable it is told in any case. -/
theorem callee_told {v : Variable} {name : String} {s : Setting} {c : Cursor}
    (path : v.path? = some name) (h : Passed x D (N ++ v.names D) calls (EndsPath x D N v)
      (fun f => A f ∧ (f 0).lexeme.is Mark.leftParen = true) s c) :
    Passed x D (N ++ calleeTold D v name) calls (fun ts => endsMember ts = true) Any s c := by
  obtain ⟨ts, place, opened, names, ends⟩ := h
  obtain ⟨last, told⟩ := ends name path
  refine ⟨ts, place.weaken fun _ _ => trivial, opened, ?_, last⟩
  unfold calleeTold
  split
  · next plain =>
    obtain ⟨front, lone⟩ := told plain
    -- the name at the root is the only one
    obtain ⟨n, only⟩ : ∃ n, v.names D = [n] := by
      rw [Variable.names_of_path path] at front ⊢
      cases root : v.plainRoot? with
      | none =>
        rw [root] at front
        cases front
      | some n => exact ⟨n, rfl⟩
    rw [only] at names front
    unfold calleeNames
    split
    · -- the front of a dotted name is one of the names all the same
      rwa [List.mem_singleton.1 front]
    next dotless =>
    rw [List.mem_singleton, pathFront_of_dotless dotless] at front
    split
    · rwa [front]
    next unknown =>
    -- a name that is not declared stands for no variable before the parenthesis
    obtain ⟨before, t, rfl, -, rfl, earlier⟩ := lone dotless
    have parts := place.parts
    rw [List.append_assoc, List.singleton_append] at parts
    refine earlier.concat (List.subset_append_left _ _) parts fun stands =>
      absurd (stands.callee ?_) unknown
    rw [place.head?_any]
    exact place.ahead.2
  · next marked =>
    have none : v.plainRoot? = none := if_neg marked
    rwa [Variable.names_of_path path, none] at names

/-- A variable, or the call that it begins. -/
theorem variableOrCall_told (he : Tells x D e (Expr.names D)) :
    Triple (Passed x D N calls L A) (variableOrCall e) (Said x D N calls) := by
  refine (variableWith_told he).bind fun v => (Passed.sees _).bind fun call => .ite (fun yes => ?_) fun _ => ?_
  · subst yes
    split
    · exact Triple.bind_fails fun _ => .fail _
    · next name path =>
      refine Triple.imp ?_ fun s c h => callee_told path h
      refine (callArgs_told he fun ts h => h).bind fun args => Passed.node _ fun span n hn => ?_
      simp only [List.mem_append, Expr.mem_names_call] at hn ⊢
      obtain (before | callee) | arg := hn
      · exact .inl before
      · exact .inr (.inl (calleeTold_subset _ _ _ callee))
      · exact .inr (.inr arg)
  · exact .pure fun s c h => h.told

/-! ### Operands -/

theorem primary_told (he : Tells x D e (Expr.names D)) :
    Triple (Told x D N calls A) (primary e) (Said x D N calls) := by
  refine Passed.peek.bind fun t => Triple.imp (P := Told x D N calls fun f => f 0 = t) ?_
    fun s c h => h.weaken (fun _ _ => trivial) fun f hf => hf.2
  split
  · next known =>
    exact (literal_told known).post fun e s c h => h.mono (List.subset_append_left _ _)
  · next known => exact timeLiteral_told known
  refine .ite (fun paren => ?_) fun _ => ?_
  · -- whether the parenthesis counts as one of a call does not matter for what is inside
    refine Triple.imp (P := fun s c => ∃ b, Passed x D N calls (fun ts => endsMember ts = b)
      (fun f => f 0 = t) s c) (.ex fun b => ?_) fun s c ⟨ts, h, opened, names, _⟩ =>
        ⟨endsMember ts, ts, h, opened, names, rfl⟩
    refine (Passed.opens (fun g hg => ?_) fun ts h => h).bind fun _ => (he _ _).bind fun inner => ?_
    · rw [hg]
      exact Terminal.is_lexeme paren
    refine (Passed.expectClosing Mark.rightParen _ _ rfl).bind fun _ => ?_
    exact Passed.node _ fun span n hn => by simpa [Expr.mem_names_paren] using hn
  refine (Passed.lexemeAt 1).bind fun hash => (Passed.lexemeAt 2).bind fun value => .ite (fun yes => ?_) fun _ => ?_
  · simp only [Bool.and_eq_true] at yes
    refine typedLiteral_told.imp fun s c h => h.weaken (fun _ h => h) fun f hf => ?_
    rw [hf.1.1, hf.1.2]
    exact yes.1
  · exact .ite (fun _ => variableOrCall_told he) fun _ => .failInvalid _

theorem unaryBody_tells (hu : Tells x D u (Expr.names D)) (hp : Tells x D p (Expr.names D)) :
    Tells x D (unaryBody u p) (Expr.names D) := by
  intro N calls
  refine Passed.peek.bind fun t => ?_
  split
  · next negation =>
    refine Passed.passQuiet (.keyword .NOT) rfl (fun g hg => hg.2 ▸ negation) fun _ => ?_
    refine (Triple.imp (binaryFrom_tells hu hp _ _ _) fun s c h => h.told).bind fun y => ?_
    exact Passed.node _ fun span n hn => by simpa [Expr.mem_names_unary] using hn
  · next minus =>
    refine Passed.passQuiet (.mark .minus) rfl (fun g hg => hg.2 ▸ minus) fun _ => ?_
    refine (Triple.imp (hu _ _) fun s c h => h.told).bind fun y => ?_
    exact Passed.node _ fun span n hn => by simpa [Expr.mem_names_unary] using hn
  · next plus =>
    refine Passed.passQuiet (.mark .plus) rfl (fun g hg => hg.2 ▸ plus) fun _ => ?_
    refine (Triple.imp (hu _ _) fun s c h => h.told).bind fun y => .pure fun s c h => ?_
    rwa [Expr.names_withSpan]
  · exact primary_told (binaryFrom_tells hu hp 1)

/-- What a rule tells does not depend on the constructs that are open. -/
theorem Tells.nested {r : Rule α} {names : α → List String} (h : Tells x D r names) :
    Tells x D (nested r) names :=
  fun N calls => Passed.stable.nested (h N calls) fun _ => Passed.stable

theorem tooDeep_tells {names : α → List String} : Tells x D (tooDeep : Rule α) names :=
  fun _ _ => .tooDeep

theorem operands_tell (levels : Nat) :
    Tells x D (unary levels) (Expr.names D) ∧ Tells x D (powerOperand levels) (Expr.names D) := by
  induction levels with
  | zero => exact ⟨tooDeep_tells, tooDeep_tells⟩
  | succ levels ih =>
    obtain ⟨hu, hp⟩ := ih
    exact ⟨(unaryBody_tells hu hp).nested, (binaryFrom_tells hu hp _).nested⟩

/-- An expression tells its names. -/
theorem expression_tells (levels : Nat) : Tells x D (expression levels) (Expr.names D) :=
  binaryFrom_tells (operands_tell levels).1 (operands_tell levels).2 1

end Plc.Grammar

/-
The words of an expression are those it was read from.

Each rule for expressions takes down the words of its result, and nothing else: what a tree does
not show is no more than signs before operands.

* `expression_yields`, `variableWith_yields` — the rules that other rules use;
* `callArgs_yields` — the arguments of a call.
-/
import Plc.Proofs.Yield.Transcript

namespace Plc

/-- The operator as a reserved word or a mark. -/
def BinaryOp.terminal : BinaryOp → Terminal
  | .add => .mark .plus | .sub => .mark .minus | .mul => .mark .star | .div => .mark .slash
  | .mod => .keyword .MOD | .power => .mark .power
  | .eq => .mark .equal | .ne => .mark .notEqual | .lt => .mark .less | .le => .mark .lessEqual
  | .gt => .mark .greater | .ge => .mark .greaterEqual
  | .and => .keyword .AND | .or => .keyword .OR | .xor => .keyword .XOR

theorem BinaryOp.terminal_word (op : BinaryOp) : op.terminal.word = op.word := by
  cases op <;> rfl

theorem BinaryOp.eq_terminal {l : Lexeme} {op : BinaryOp} (h : ofLexeme? l = some op) :
    l = op.terminal.lexeme := by
  unfold ofLexeme? at h
  split at h
  all_goals first | (cases h; rfl) | cases h

namespace Grammar

variable {x : Transcript} {ws : List Word} {b : Bool} {A : (Nat → Token) → Prop}
  {α : Type} {u p e : Rule Expr}

/-! ### Operators -/

/-- An expression was taken down after the given words. -/
abbrev After (x : Transcript) (ws : List Word) (e : Expr) : Assertion :=
  Taken x (ws ++ e.yield x.leaf) true Any

/-- An operator comes after an expression. -/
abbrev BeforeOp (x : Transcript) (ws : List Word) (e : Expr) (op : BinaryOp) : Assertion :=
  Taken x (ws ++ e.yield x.leaf) true fun f => BinaryOp.ofLexeme? (f 0).lexeme = some op

/-- An expression is built of what was read. -/
theorem Taken.expr {ws' : List Word} (start : Span) {build : Span → Expr}
    (same : x.IsSound → ∀ span, ws' = ws ++ (build span).yield x.leaf) :
    Triple (Taken x ws' true A) (Grammar.node start build) (After x ws) :=
  Taken.node start same

theorem operatorFrom_taken (least : Nat) (left : Expr) :
    Triple (After x ws left) (operatorFrom least left) (Sum.elim (After x ws) (BeforeOp x ws left)) := by
  refine Taken.lexeme.bind fun l => ?_
  split
  · next op known =>
    split
    · refine .pure fun s c h => h.weaken fun f hf => ?_
      rw [hf.2, known]
    · exact .pure fun s c h => h.any
  · exact .pure fun s c h => h.any

theorem operation_taken {right : BinaryOp → Rule Expr}
    (h : ∀ op, Yields x (right op) (Expr.yield x.leaf)) (left : Expr) (op : BinaryOp) :
    Triple (BeforeOp x ws left op) (operation right left op) (Sum.elim (After x ws) (After x ws)) := by
  have plain : op.terminal.isPlain = true := by cases op <;> rfl
  have kept : isKept true op.terminal.lexeme = true := by cases op <;> rfl
  have opens : op.terminal.lexeme.endsOperand = false := by cases op <;> rfl
  refine Taken.passTerminal op.terminal plain kept (fun g hg => BinaryOp.eq_terminal hg) fun t => ?_
  rw [opens, op.terminal_word]
  refine ((h op _).imp fun s c h => h.any).bind fun y => ?_
  refine Triple.bind (Taken.expr _ fun _ span => ?_) fun e => .pure fun s c h => h
  simp [Expr.yield]

/-- Operands and operators in turn. -/
theorem climb_yields (hu : Yields x u (Expr.yield x.leaf)) (hp : Yields x p (Expr.yield x.leaf))
    (tighter least : Nat) : Yields x (climb u p tighter least) (Expr.yield x.leaf) := by
  induction tighter generalizing least with
  | zero => exact hu
  | succ tighter ih =>
    intro ws
    refine (hu ws).bind fun first => Triple.passes.bind fun n => ?_
    refine Triple.repeating (I := After x ws) (J := BeforeOp x ws) (operatorFrom_taken least)
      (operation_taken fun op => ?_) n first
    split
    · exact hp
    · exact ih _

theorem binaryFrom_yields (hu : Yields x u (Expr.yield x.leaf))
    (hp : Yields x p (Expr.yield x.leaf)) (least : Nat) :
    Yields x (binaryFrom u p least) (Expr.yield x.leaf) :=
  climb_yields hu hp _ _

/-! ### Literals -/

/-- A literal of one token is written as this token. -/
theorem plainLiteral?_some {t : Token} {l : Literal} (h : plainLiteral? t = some l) :
    l.text = t.text ∧ t.lexeme.isInOperand = true ∧ t.lexeme.endsOperand = true := by
  unfold plainLiteral? at h
  split at h
  all_goals first
    | cases h
      next known => exact ⟨rfl, by rw [known]; rfl, by rw [known]; rfl⟩
    | cases h

/-- A time or date literal is one token. -/
theorem timeValue?_some {t : Token} {v : Except Fault Literal.Value} (h : timeValue? t = some v) :
    t.lexeme.isInOperand = true ∧ t.lexeme.endsOperand = true := by
  unfold timeValue? at h
  dsimp only at h
  split at h
  all_goals first
    | next known => exact ⟨by rw [known]; rfl, by rw [known]; rfl⟩
    | cases h

theorem isKept_of_isInOperand {l : Lexeme} (b : Bool) (h : l.isInOperand = true) :
    isKept b l = true := by
  cases l with
  | keyword k =>
    have other : (k == .END_REPEAT) = false := by
      cases k with
      | END_REPEAT => cases h
      | _ => rfl
    simp [isKept, Lexeme.isSound, Lexeme.is, other]
  | mark m =>
    cases m with
    | hash | minus => cases b <;> rfl
    | _ => cases h
  | pragma | unknown | malformed | finish => cases h
  | _ => cases b <;> rfl

theorem Lexeme.isSound_of_isInOperand {l : Lexeme} (h : l.isInOperand = true) :
    l.isSound = true := by
  have kept := isKept_of_isInOperand true h
  simp only [isKept, Bool.and_eq_true] at kept
  exact kept.1.1.1

theorem literal_taken {t : Token} {l : Literal} (h : plainLiteral? t = some l) :
    Triple (Taken x ws false fun f => f 0 = t) (literal t l) (After x ws) := by
  obtain ⟨text, operand, ends⟩ := plainLiteral?_some h
  refine Taken.passSeen t (isKept_of_isInOperand _ operand) (fun g hg => hg) fun ht => ?_
  have build : Triple (Taken x (ws ++ [t.sign]) t.lexeme.endsOperand fun g => cons t g 0 = t)
      (node t.span fun s => Expr.literal s l) (After x ws) := by
    rw [ends]
    refine Taken.expr _ fun sound span => ?_
    rw [Expr.yield, text, x.leaf_text sound ht operand]
  split
  · exact (Triple.checkLimit _ _ _).bind fun _ => build
  · exact build

theorem timeLiteral_taken {t : Token} {v : Except Fault Literal.Value} (h : timeValue? t = some v) :
    Triple (Taken x ws false fun f => f 0 = t) (timeLiteral t v) (After x ws) := by
  obtain ⟨operand, ends⟩ := timeValue?_some h
  refine Taken.passSeen t (isKept_of_isInOperand _ operand) (fun g hg => hg) fun ht => ?_
  split
  · rw [ends]
    refine Taken.expr _ fun sound span => ?_
    rw [Expr.yield, x.leaf_text sound ht operand]
  · exact .throw _

/-- Part of an operand was read, from one token to another; it is taken down when all of it is. -/
def Begun (x : Transcript) (ws : List Word) (first last : Token) (A : (Nat → Token) → Prop) :
    Assertion :=
  fun s c => ∃ ts mid, At x (ts ++ mid) A s c ∧ (x.IsSound → x.words ts = ws) ∧
    first ∈ mid.head? ∧ last ∈ mid.getLast? ∧ ∀ t ∈ mid, t.lexeme.isInOperand = true

namespace Begun

variable {first last : Token}

theorem stable : Stable (Begun x ws first last A) := by
  rintro s c c' rest stop ⟨ts, mid, h, parts⟩
  exact ⟨ts, mid, At.stable rest stop h, parts⟩

theorem weaken {B : (Nat → Token) → Prop} {s : Setting} {c : Cursor}
    (h : Begun x ws first last A s c) (hB : ∀ f, A f → B f) : Begun x ws first last B s c := by
  obtain ⟨ts, mid, ⟨setting, parts, sound, stop, ahead⟩, rest⟩ := h
  exact ⟨ts, mid, ⟨setting, parts, sound, stop, hB _ ahead⟩, rest⟩

/-- An operand begins with a token. -/
theorem begin (part : ∀ g, A g → (g 0).lexeme.isInOperand = true) :
    Triple (Taken x ws b A) advance fun t => Begun x ws t t fun g => A (cons t g) := by
  rintro s c t c' ⟨ts, h, words, -⟩ hrun
  have sound (g : Nat → Token) (hg : A g) : (g 0).lexeme.isSound = true :=
    Lexeme.isSound_of_isInOperand (part g hg)
  have after : At x (ts ++ [t]) (fun g => A (cons t g)) s c' := At.advance sound h hrun
  refine ⟨ts, [t], after, words, rfl, rfl, fun u hu => ?_⟩
  rw [List.mem_singleton.1 hu]
  exact part _ after.ahead

/-- One token more. -/
theorem advance (part : ∀ g, A g → (g 0).lexeme.isInOperand = true) :
    Triple (Begun x ws first last A) advance fun t => Begun x ws first t fun g => A (cons t g) := by
  rintro s c t c' ⟨ts, mid, h, words, begins, -, inside⟩ hrun
  have sound (g : Nat → Token) (hg : A g) : (g 0).lexeme.isSound = true :=
    Lexeme.isSound_of_isInOperand (part g hg)
  have after : At x (ts ++ mid ++ [t]) (fun g => A (cons t g)) s c' := At.advance sound h hrun
  refine ⟨ts, mid ++ [t], List.append_assoc .. ▸ after, words, ?_, List.getLast?_concat, ?_⟩
  · rw [List.head?_append, Option.mem_def.1 begins]
    rfl
  · intro u hu
    obtain hu | hu := List.mem_append.1 hu
    · exact inside u hu
    · rw [List.mem_singleton.1 hu]
      exact part _ after.ahead

theorem and {B : (Nat → Token) → Prop} {s : Setting} {c : Cursor}
    (h : Begun x ws first last A s c) (hB : B (s.ahead c)) :
    Begun x ws first last (fun f => A f ∧ B f) s c := by
  obtain ⟨ts, mid, ⟨setting, parts, sound, stop, ahead⟩, rest⟩ := h
  exact ⟨ts, mid, ⟨setting, parts, sound, stop, ahead, hB⟩, rest⟩

theorem peek : Triple (Begun x ws first last A) peek
    fun t => Begun x ws first last fun f => A f ∧ f 0 = t :=
  Triple.peek.post fun _ _ _ h => h.1.and h.2

theorem sees (k : Terminal) : Triple (Begun x ws first last A) (sees k)
    fun r => Begun x ws first last fun f => A f ∧ (f 0).lexeme.is k = r :=
  (Triple.sees k).post fun _ _ _ h => h.1.and (B := fun f => (f 0).lexeme.is k = _) h.2

/-- A word that may come. -/
theorem accept {k : Terminal} (part : k.lexeme.isInOperand = true) :
    Triple (Begun x ws first last A) (accept k) fun _ s c => ∃ t, Begun x ws first t Any s c := by
  refine (sees k).bind fun r => .ite (fun yes => ?_) fun _ => ?_
  · subst yes
    have known (g : Nat → Token) (hg : A g ∧ (g 0).lexeme.is k = true) :
        (g 0).lexeme.isInOperand = true := Terminal.is_lexeme hg.2 ▸ part
    exact (advance known).bind fun t => .pure fun s c h => ⟨t, h.weaken fun _ _ => trivial⟩
  · exact .pure fun s c h => ⟨last, h.weaken fun _ _ => trivial⟩

/-- A word that must come. -/
theorem expect {k : Terminal} (part : k.lexeme.isInOperand = true) :
    Triple (Begun x ws first last A) (expect k) fun t => Begun x ws first t Any := by
  refine (sees k).bind fun r => .ite (fun yes => ?_) fun _ => .failExpecting _
  subst yes
  have known (g : Nat → Token) (hg : A g ∧ (g 0).lexeme.is k = true) :
      (g 0).lexeme.isInOperand = true := Terminal.is_lexeme hg.2 ▸ part
  exact (advance known).post fun t s c h => h.weaken fun _ _ => trivial

/-- The token that was seen is passed over. -/
theorem passSeen (t : Token) {β : Type} {f : Token → Rule β} {Q : β → Assertion}
    (part : t.lexeme.isInOperand = true) (hf : Triple (Begun x ws first t Any) (f t) Q) :
    Triple (Begun x ws first last fun g => g 0 = t) (Grammar.advance >>= f) Q := by
  refine (advance fun g hg => by rwa [hg]).bind fun u => .given (φ := u = t) ?_ fun same => ?_
  · rintro s c ⟨ts, mid, h, -⟩
    exact h.ahead
  · subst same
    exact hf.imp fun s c h => h.weaken fun _ _ => trivial

theorem literal {t : Token} {l : Literal} (h : plainLiteral? t = some l) :
    Triple (Begun x ws first last fun f => f 0 = t) (literal t l) fun _ => Begun x ws first t Any := by
  have build : Triple (Begun x ws first t Any) (node t.span fun s => Expr.literal s l)
      fun _ => Begun x ws first t Any :=
    stable.node _ fun span s c h => h
  refine passSeen t (plainLiteral?_some h).2.1 ?_
  split
  · exact (Triple.checkLimit _ _ _).bind fun _ => build
  · exact build

end Begun

/-- Tokens of an operand are taken down as they are. -/
theorem words_append {ts mid : List Token} (part : ∀ t ∈ mid, t.lexeme.isInOperand = true) :
    x.words (ts ++ mid) = x.words ts ++ mid.map Token.sign := by
  induction mid generalizing ts with
  | nil => rw [List.append_nil, List.map_nil, List.append_nil]
  | cons t mid ih =>
    have kept : isKept (endsOperand ts) t.lexeme = true :=
      isKept_of_isInOperand _ (part t List.mem_cons_self)
    rw [List.append_cons, ih fun u hu => part u (List.mem_cons_of_mem _ hu), words_concat kept,
      List.map_cons, ← List.append_cons]

/-- A literal with its type in front is written as the tokens from its type on. -/
theorem typedNode_taken {first last : Token} (ends : last.lexeme.endsOperand = true)
    (v : Literal.Value) :
    Triple (Begun x ws first last A) (typedNode first v) (After x ws) := by
  refine (Triple.spanFrom first.span).bind fun span => Triple.sourceText.bind fun source => ?_
  refine Stable.node (P := fun s c => (Begun x ws first last A s c ∧ span.start = first.span.start ∧
    span.stop = max c.lastStop first.span.stop) ∧ source = s.source) ?_ _ ?_
  · rintro s c c' rest stop ⟨⟨h, start, stops⟩, same⟩
    exact ⟨⟨Begun.stable rest stop h, start, stop ▸ stops⟩, same⟩
  · rintro place s c ⟨⟨⟨ts, mid, h, words, begins, closes, part⟩, start, stop⟩, rfl⟩
    have parts : x.all = ts ++ (mid ++ c.rest) := by rw [h.parts, List.append_assoc]
    have closes' : last ∈ (ts ++ mid).getLast? := by
      rw [List.getLast?_append, Option.mem_def.1 closes]
      rfl
    refine ⟨ts ++ mid, ⟨h.setting, h.parts, h.sound, h.stop, trivial⟩, fun sound => ?_, ?_⟩
    · rw [h.stop last closes', Nat.max_eq_left (x.stop_le sound parts begins closes)] at stop
      have text := x.leaf_stretch sound parts begins closes start stop part
      rw [words_append part, words sound, Expr.yield, h.setting, text]
    · rw [endsOperand, Option.mem_def.1 closes']
      exact ends

/-- The tokens that may stand before the `#` of a literal. -/
theorem isInOperand_of_beginsTyped {l : Lexeme} (h : beginsTyped l = true) :
    l.isInOperand = true := by
  unfold beginsTyped at h
  split at h
  all_goals first | rfl | cases h

theorem typedLiteral_taken :
    Triple (Taken x ws false fun f => beginsTyped (f 0).lexeme = true) typedLiteral (After x ws) := by
  refine (Begun.begin fun g hg => isInOperand_of_beginsTyped hg).bind fun type => ?_
  refine (Begun.expect (k := Mark.hash) rfl).bind fun hash => ?_
  refine (Begun.accept (k := Mark.minus) rfl).bind fun minus => Triple.ex fun last => ?_
  refine Begun.peek.bind fun t => Triple.imp (P := Begun x ws type last fun f => f 0 = t) ?_
    fun s c h => h.weaken fun f hf => hf.2
  have value {l : Literal} (known : plainLiteral? t = some l) (v : Literal.Value) :
      Triple (Begun x ws type last fun f => f 0 = t)
        (do let _ ← literal t l; typedNode type v) (After x ws) :=
    (Begun.literal known).bind fun _ => typedNode_taken (plainLiteral?_some known).2.2 v
  split
  · next name =>
    refine .ite (fun _ => .failExpecting _) fun _ => Begun.passSeen t ?_ (typedNode_taken ?_ _)
    · rw [name]
      rfl
    · rw [name]
      rfl
  · next known => exact value known _
  · next known => exact value known _
  · exact .failExpecting _
  · next known _ _ _ _ => exact .ite (fun _ => .failExpecting _) fun _ => value known _
  · exact .failExpecting _

/-! ### Lists -/

/-- The words before the next item of a list. -/
def beforeItem (wss : List (List Word)) : List Word :=
  if wss.isEmpty then [] else commaWords wss ++ [.mark .comma]

theorem commaWords_item (wss : List (List Word)) (ws : List Word) :
    commaWords (wss ++ [ws]) = beforeItem wss ++ ws := by
  cases wss with
  | nil => simp [commaWords, beforeItem]
  | cons vs vss => simp [commaWords, beforeItem]

theorem beforeItem_of_ne_nil {wss : List (List Word)} (h : wss ≠ []) :
    beforeItem wss = commaWords wss ++ [.mark .comma] := by
  obtain ⟨ws, wss, rfl⟩ := List.exists_cons_of_ne_nil h
  rfl

section

variable {item : Rule α} {spanOf : α → Span} {yield : α → List Word}

/-- Another item comes after a comma. -/
theorem comma_taken {as : List α} (some_item : as ≠ []) :
    Triple (Taken x (ws ++ commaWords (as.map yield)) b Any) (accept Mark.comma) fun r =>
      cond r (Taken x (ws ++ beforeItem (as.map yield)) false Any)
        (Taken x (ws ++ commaWords (as.map yield)) b Any) := by
  have some_words : as.map yield ≠ [] := by simpa using some_item
  rw [beforeItem_of_ne_nil some_words, ← List.append_assoc]
  have kept : isKept b (Lexeme.mark .comma) = true := by cases b <;> rfl
  exact Taken.accept Mark.comma rfl kept

theorem item_taken (h : Yields x item yield) (as : List α) :
    Triple (Taken x (ws ++ beforeItem (as.map yield)) false Any) item
      fun a => Taken x (ws ++ commaWords ((as ++ [a]).map yield)) true Any := by
  refine (h _).post fun a s c h => ?_
  rwa [List.map_append, List.map_singleton, commaWords_item, ← List.append_assoc]

/-- One item or more, with commas between them. -/
theorem commaList_taken (h : Yields x item yield) :
    Triple (Taken x ws false Any) (commaList item spanOf)
      fun as => Taken x (ws ++ commaWords (as.map yield)) true Any := by
  have all : Triple (Taken x (ws ++ beforeItem (([] : List α).map yield)) false Any)
      (commaList item spanOf)
      fun as s c => as ≠ [] ∧ Taken x (ws ++ commaWords (as.map yield)) true Any s c := by
    refine Triple.commaList (J := fun as => Taken x (ws ++ beforeItem (as.map yield)) false Any)
      (fun as => .given (fun s c h => h.1) fun some_item => ?_) fun as => ?_
    · refine ((comma_taken some_item).imp fun s c h => h.2).post fun r s c h => ?_
      cases r with
      | true => exact h
      | false => exact ⟨some_item, h⟩
    · exact (item_taken h as).post fun a s c h => ⟨by simp, h⟩
  refine (all.imp fun s c h => ?_).post fun as s c h => h.2
  rwa [List.map_nil, beforeItem, List.isEmpty_nil, if_pos rfl, List.append_nil]

end

/-! ### Variables -/

/-- The dotted name of a variable is written as the variable is. -/
def IsSpelled (leaf : String → List Word) (v : Variable) : Prop :=
  ∀ p, v.path? = some p → dottedYield leaf (segments p) = v.yield leaf

/-- A variable was taken down after the given words. -/
abbrev AfterVariable (x : Transcript) (ws : List Word) (v : Variable) : Assertion :=
  fun s c => IsSpelled x.leaf v ∧ Taken x (ws ++ v.yield x.leaf) true Any s c

theorem Taken.variable {ws' : List Word} (start : Span) {build : Span → Variable}
    (spelled : ∀ span, IsSpelled x.leaf (build span))
    (same : x.IsSound → ∀ span, ws' = ws ++ (build span).yield x.leaf) :
    Triple (Taken x ws' true A) (Grammar.node start build) (AfterVariable x ws) :=
  Taken.stable.node start fun span _ _ h =>
    ⟨spelled span, h.any.congr fun sound => same sound span⟩

theorem variableRoot_taken : Triple (Taken x ws false A) variableRoot (AfterVariable x ws) := by
  refine Taken.peek.bind fun t => Taken.dialect ?_
  split
  · next name =>
    refine Taken.passSeen t (by rw [name]; rfl) (fun g hg => hg.2) fun ht => ?_
    rw [name]
    refine Taken.variable _ (fun span p path => ?_) fun sound span => ?_
    · cases path
      rw [segments_of_dotless (x.dotless ht (.inl name))]
      rfl
    · rw [Token.sign_name name]
      rfl
  · rw [x.plain.1]
    exact .failInvalid _
  · rw [x.plain.2.1]
    exact .failInvalid _
  · next known =>
    refine Taken.passSeen t (by rw [known]; rfl) (fun g hg => hg.2) fun ht => ?_
    rw [known]
    refine Taken.variable _ (fun span p path => by cases path) fun sound span => ?_
    rw [Variable.yield, x.leaf_text sound ht (by rw [known]; rfl)]
  · exact .failInvalid _

theorem isInOperand_of_isMemberName {l : Lexeme} (h : isMemberName l = true) :
    l.isInOperand = true := by
  unfold isMemberName at h
  split at h
  all_goals first | rfl | cases h

/-- A member is taken down as one token. -/
theorem member_taken {v : Variable} (spelled : IsSpelled x.leaf v) :
    Triple (Taken x (ws ++ v.yield x.leaf) true fun f =>
        (f 0).lexeme.is Mark.dot = true ∧ isMemberName (f 1).lexeme = true)
      (do
        let _ ← advance
        let member ← advance
        return Sum.inr (← node v.span fun s => .member s v member.nameText))
      (Sum.elim (AfterVariable x ws) (AfterVariable x ws)) := by
  refine Taken.passTerminal Mark.dot rfl rfl (fun g hg => Terminal.is_lexeme hg.1) fun dot => ?_
  refine Taken.pass (fun g hg => ?_) fun m hm => ?_
  · exact isKept_of_isInOperand _ (isInOperand_of_isMemberName hg.2)
  · refine .given (φ := isMemberName m.lexeme = true) (fun s c h => h.fact fun g hg => hg.2) ?_
    intro named
    -- The path takes the name, the tokens have their characters; they agree since no name is
    -- quoted.
    have text : m.nameText = m.text := by
      unfold Token.nameText
      split
      · next quoted => exact absurd quoted (x.unquoted hm _)
      · rfl
    have dotless : '.' ∉ m.text.toList := by
      refine x.dotless hm ?_
      unfold isMemberName at named
      split at named
      · next name => exact .inl name
      · next quoted => exact absurd quoted (x.unquoted hm _)
      · next n integer => exact .inr ⟨n, integer⟩
      · cases named
    have ends : m.lexeme.endsOperand = true := by
      unfold isMemberName at named
      split at named
      all_goals first
        | next known => rw [known]; rfl
        | cases named
    rw [ends, text]
    refine (Taken.variable _ (fun span p path => ?_) fun sound span => ?_).bind fun _ =>
      .pure fun s c h => h
    -- The dotted name grows by one segment, as the member has no dot in it.
    · obtain ⟨q, base, rfl⟩ := Option.map_eq_some_iff.1 path
      have some_name : segments q ≠ [] :=
        fun none => List.splitOn_ne_nil '.' q.toList (List.map_eq_nil_iff.1 none)
      rw [segments_member q dotless, dottedYield_concat x.leaf some_name, spelled q base]
      rfl
    · rw [Variable.yield, x.leaf_text sound hm (isInOperand_of_isMemberName named),
        List.append_assoc, List.append_assoc]
      rfl

theorem variableAccess_taken (he : Yields x e (Expr.yield x.leaf)) (v : Variable) :
    Triple (AfterVariable x ws v) (variableAccess e v)
      (Sum.elim (AfterVariable x ws) (AfterVariable x ws)) := by
  refine .given (fun s c h => h.1) fun spelled => ?_
  refine Triple.imp (P := Taken x (ws ++ v.yield x.leaf) true Any) ?_ fun s c h => h.2
  -- Three ways to go on, or none; of the dialects with a caret this is the one that takes it behind
  -- an operand.
  refine (Taken.sees _).bind fun dot => (Taken.lexemeAt 1).bind fun l => .ite (fun yes => ?_) fun _ => ?_
  · rw [Bool.and_eq_true] at yes
    refine (member_taken spelled).imp fun s c h => h.weaken fun f hf => ?_
    rw [hf.1.2, hf.2]
    exact yes
  refine (Taken.sees _).bind fun bracket => .ite (fun yes => ?_) fun _ => ?_
  · subst yes
    refine Taken.passTerminal Mark.leftBracket rfl rfl (fun g hg => Terminal.is_lexeme hg.2) fun t => ?_
    refine ((commaList_taken he).imp fun s c h => h.any).bind fun is => ?_
    refine (Taken.expectClosing Mark.rightBracket _ _ rfl rfl).bind fun _ => ?_
    refine (Taken.variable _ (fun span p path => by cases path) fun _ span => ?_).bind fun _ =>
      .pure fun s c h => h
    simp only [Variable.yield, Expr.yieldEach_eq, List.append_assoc, List.singleton_append]
    rfl
  refine (Taken.sees _).bind fun caret => Taken.dialect (.ite (fun yes => ?_) fun _ => ?_)
  · rw [Bool.and_eq_true] at yes
    obtain ⟨rfl, -⟩ := yes
    refine Taken.passTerminal Mark.caret rfl rfl (fun g hg => Terminal.is_lexeme hg.2) fun t => ?_
    refine (Taken.variable _ (fun span p path => by cases path) fun _ span => ?_).bind fun _ =>
      .pure fun s c h => h
    rw [Variable.yield, List.append_assoc]
    rfl
  · exact .pure fun s c h => ⟨spelled, h.any⟩

/-- A variable is taken down, and so is its dotted name. -/
theorem variableWith_taken (he : Yields x e (Expr.yield x.leaf)) :
    Triple (Taken x ws false A) (variableWith e) (AfterVariable x ws) := by
  refine variableRoot_taken.bind fun root => Triple.passes.bind fun n => ?_
  exact Triple.repeating (I := AfterVariable x ws) (J := fun v _ => AfterVariable x ws v)
    (fun v => Triple.pure (a := Sum.inr ()) fun s c h => h)
    (fun v _ => variableAccess_taken he v) n root

/-! ### Calls -/

/-- An argument of a call was taken down; an empty place ends with no operand. -/
abbrev AfterArg (x : Transcript) (ws : List Word) (a : Arg) : Assertion :=
  fun s c => ∃ b, Taken x (ws ++ a.yield x.leaf) b Any s c

/-- An argument is built of what was read. -/
theorem Taken.arg {ws' : List Word} (start : Span) {build : Span → Arg}
    (same : ∀ span, ws' = ws ++ (build span).yield x.leaf) :
    Triple (Taken x ws' b A) (Grammar.node start build) (AfterArg x ws) :=
  Taken.stable.node start fun span _ _ h => ⟨b, h.any.congr fun _ => same span⟩

/-- A name before a mark is passed over, and so is the mark. -/
theorem Taken.nameBefore {β : Type} (k : Mark) {f : Token → Rule β} {Q : β → Assertion}
    (kept : isKept true (.mark k) = true)
    (seen : ∀ g, A g → (g 0).lexeme.isName = true ∧ (g 1).lexeme.is k = true)
    (hf : ∀ g, A g →
      Triple (Taken x (ws ++ [Word.name (g 0).text, .mark k]) (Lexeme.mark k).endsOperand Any)
        (f (g 0)) Q) :
    Triple (Taken x ws b A) (Grammar.advance >>= fun t => Grammar.advance >>= fun _ => f t) Q := by
  have isName {l : Lexeme} (h : l.isName = true) : l = .name := by
    cases l with
    | name => rfl
    | _ => cases h
  refine Taken.pass (fun g hg => ?_) fun t ht => ?_
  · rw [isName (seen g hg).1]
    cases b <;> rfl
  refine .given (φ := ∃ g, A g ∧ g 0 = t) (fun s c h => h.fact fun g hg => ⟨_, hg, rfl⟩) ?_
  rintro ⟨g, hg, rfl⟩
  have name := isName (seen g hg).1
  rw [name, Token.sign_name name]
  refine Taken.passTerminal k rfl kept (fun g hg => Terminal.is_lexeme (seen _ hg).2) fun _ => ?_
  rw [List.append_assoc]
  exact (hf g hg).imp fun s c h => h.any

theorem argument_taken (he : Yields x e (Expr.yield x.leaf)) :
    Triple (Taken x ws false Any) (argument e) (AfterArg x ws) := by
  -- The first three tokens tell which kind of argument it is, and these are the ones that are
  -- passed over.
  refine Taken.peek.bind fun start => (Taken.lexemeAt 1).bind fun next => .ite (fun yes => ?_) fun _ => ?_
  · rw [Bool.and_eq_true] at yes
    refine Taken.nameBefore .assign rfl (fun g hg => ?_) fun g hg => ?_
    · rw [hg.1.2, hg.2]
      exact yes
    · rw [hg.1.2]
      refine (he _).bind fun value => Taken.arg _ fun span => ?_
      rw [Arg.yield, List.append_assoc]
      rfl
  refine .ite (fun yes => ?_) fun _ => (Taken.lexemeAt 2).bind fun third => .ite (fun yes => ?_) fun _ => ?_
  · rw [Bool.and_eq_true] at yes
    refine Taken.nameBefore .arrow rfl (fun g hg => ?_) fun g hg => ?_
    · rw [hg.1.2, hg.2]
      exact yes
    · rw [hg.1.2]
      refine (variableWith_taken he).bind fun target => ?_
      refine (Taken.arg _ fun span => ?_).imp fun s c h => h.2
      rw [Arg.yield, List.append_assoc]
      rfl
  · simp only [Bool.and_eq_true] at yes
    obtain ⟨⟨negation, name⟩, arrow⟩ := yes
    refine Taken.passTerminal Keyword.NOT rfl rfl (fun g hg => ?_) fun _ => ?_
    · rw [hg.1.1.2]
      exact Terminal.is_lexeme negation
    refine Taken.nameBefore .arrow rfl (fun g hg => ?_) fun g hg => ?_
    · rw [← hg.1.2] at name
      rw [← hg.2] at arrow
      exact ⟨name, arrow⟩
    · refine (variableWith_taken he).bind fun target => ?_
      refine (Taken.arg _ fun span => ?_).imp fun s c h => h.2
      rw [Arg.yield, List.append_assoc, List.append_assoc]
      rfl
  · refine (Triple.imp (he ws) fun s c h => h.any).bind fun value => Taken.arg _ fun span => ?_
    rfl

theorem argumentOrGap_taken (he : Yields x e (Expr.yield x.leaf)) :
    Triple (Taken x ws false Any) (argumentOrGap e) (AfterArg x ws) := by
  refine (Taken.sees _).bind fun comma => (Taken.sees _).bind fun close => .ite (fun _ => ?_) fun _ => ?_
  · refine Taken.dialect (.ite (fun _ => ?_) fun _ => .failInvalid _)
    refine Taken.peek.bind fun t => Taken.arg _ fun span => ?_
    rw [Arg.yield, List.append_nil]
  · exact (argument_taken he).imp fun s c h => h.any

/-- Arguments with commas between them were taken down. -/
abbrev AfterArgs (x : Transcript) (ws : List Word) (as : List Arg) : Assertion :=
  fun s c => as ≠ [] ∧ ∃ b, Taken x (ws ++ commaWords (as.map (Arg.yield x.leaf))) b Any s c

theorem args_taken (he : Yields x e (Expr.yield x.leaf)) (n : Nat) :
    Triple (Taken x ws false Any) (listed (return true) (argumentOrGap e) Arg.span n 0)
      (AfterArgs x ws) := by
  let J (as : List Arg) : Assertion :=
    Taken x (ws ++ beforeItem (as.map (Arg.yield x.leaf))) false Any
  have all : Triple (J []) (listed (return true) (argumentOrGap e) Arg.span n 0)
      fun as => AfterArgs x ws ([] ++ as) := by
    refine Triple.listed (J := J) (K := J) (fun as => Triple.pure (a := true) fun s c h => h)
      (fun as => ?_)
      (fun as _ _ => Triple.checkSize _ _) (fun as => ?_) n 0 []
    · refine .given (fun s c h => h.1) fun some_arg => .imp (.ex fun b => ?_) fun s c h => h.2
      refine (comma_taken some_arg).post fun r s c h => ?_
      cases r with
      | true => exact h
      | false => exact ⟨some_arg, b, h⟩
    · refine (argumentOrGap_taken he).post fun a s c ⟨b, h⟩ => ⟨by simp, b, ?_⟩
      rwa [List.map_append, List.map_singleton, commaWords_item, ← List.append_assoc]
  refine all.imp fun s c h => ?_
  show Taken x (ws ++ []) false Any s c
  rwa [List.append_nil]

/-- The arguments of a call are taken down in parentheses. -/
theorem callArgs_taken (he : Yields x e (Expr.yield x.leaf)) :
    Triple (Taken x ws true A) (callArgs e)
      fun as => Taken x (ws ++ parenWords (commaWords (as.map (Arg.yield x.leaf)))) true Any := by
  refine (Taken.expect Mark.leftParen rfl rfl).bind fun opener => ?_
  refine (Taken.accept Mark.rightParen rfl rfl).bind fun empty => .ite (fun yes => ?_) fun no => ?_
  · subst yes
    refine .pure fun s c h => ?_
    rwa [cond_true, List.append_assoc] at h
  rw [Bool.not_eq_true] at no
  subst no
  refine Triple.passes.bind fun n => (args_taken he n).bind fun args => ?_
  refine Triple.imp (.ex fun b => ?_) fun s c h => h.2
  have kept : isKept b (Lexeme.mark .rightParen) = true := by cases b <;> rfl
  refine (Taken.expectClosing Mark.rightParen _ _ rfl kept).bind fun _ => .pure fun s c h => ?_
  rwa [List.append_assoc, List.append_assoc] at h

/-- A variable, or the call that it begins. -/
theorem variableOrCall_taken (he : Yields x e (Expr.yield x.leaf)) :
    Triple (Taken x ws false A) (variableOrCall e) (After x ws) := by
  refine (variableWith_taken he).bind fun v => .given (fun s c h => h.1) fun spelled => ?_
  refine Triple.imp (P := Taken x (ws ++ v.yield x.leaf) true Any) ?_ fun s c h => h.2
  refine (Taken.sees _).bind fun call => .ite (fun _ => ?_) fun _ => ?_
  · split
    · exact Triple.bind_fails fun _ => .fail _
    · next name path =>
      refine (callArgs_taken he).bind fun args => Taken.expr _ fun _ span => ?_
      rw [Expr.yield_call, spelled name path, List.append_assoc]
  · exact .pure fun s c h => h.any

/-! ### Operands -/

theorem primary_taken (he : Yields x e (Expr.yield x.leaf)) :
    Triple (Taken x ws false A) (primary e) (After x ws) := by
  refine Taken.peek.bind fun t => Triple.imp (P := Taken x ws false fun f => f 0 = t) ?_
    fun s c h => h.weaken fun f hf => hf.2
  split
  · next known => exact literal_taken known
  · next known => exact timeLiteral_taken known
  refine .ite (fun paren => ?_) fun _ => ?_
  · refine Taken.passTerminal Mark.leftParen rfl rfl (fun g hg => ?_) fun _ => ?_
    · rw [hg]
      exact Terminal.is_lexeme paren
    refine (Triple.imp (he _) fun s c h => h.any).bind fun inner => ?_
    refine (Taken.expectClosing Mark.rightParen _ _ rfl rfl).bind fun _ => Taken.expr _ fun _ span => ?_
    rw [Expr.yield, List.append_assoc, List.append_assoc]
    rfl
  refine (Taken.lexemeAt 1).bind fun hash => (Taken.lexemeAt 2).bind fun value => .ite (fun yes => ?_) fun _ => ?_
  · simp only [Bool.and_eq_true] at yes
    exact typedLiteral_taken.imp fun s c h => h.weaken fun f hf => hf.1.1 ▸ yes.1.1
  · exact .ite (fun _ => variableOrCall_taken he) fun _ => .failInvalid _

theorem unaryBody_yields (hu : Yields x u (Expr.yield x.leaf))
    (hp : Yields x p (Expr.yield x.leaf)) : Yields x (unaryBody u p) (Expr.yield x.leaf) := by
  intro ws
  refine Taken.peek.bind fun t => ?_
  split
  · next negation =>
    refine Taken.passTerminal Keyword.NOT rfl rfl (fun g hg => hg.2 ▸ negation) fun _ => ?_
    refine (Triple.imp (binaryFrom_yields hu hp _ _) fun s c h => h.any).bind fun y => ?_
    refine Taken.expr _ fun _ span => ?_
    rw [Expr.yield, List.append_assoc]
    rfl
  · next minus =>
    refine Taken.passTerminal Mark.minus rfl rfl (fun g hg => hg.2 ▸ minus) fun _ => ?_
    refine (Triple.imp (hu _) fun s c h => h.any).bind fun y => Taken.expr _ fun _ span => ?_
    rw [Expr.yield, List.append_assoc]
    rfl
  · next plus =>
    refine Taken.passSign (fun g hg => hg.2 ▸ plus) ?_
    refine (hu ws).bind fun y => .pure fun s c h => ?_
    rwa [Expr.yield_withSpan]
  · exact primary_taken (binaryFrom_yields hu hp 1)

/-- What a rule takes down does not depend on the constructs that are open. -/
theorem Yields.nested {r : Rule α} {yield : α → List Word} (h : Yields x r yield) :
    Yields x (nested r) yield :=
  fun ws => Taken.stable.nested (h ws) fun _ => Taken.stable

theorem tooDeep_yields {yield : α → List Word} : Yields x (tooDeep : Rule α) yield :=
  fun _ => .tooDeep

theorem operands_yield (levels : Nat) :
    Yields x (unary levels) (Expr.yield x.leaf) ∧ Yields x (powerOperand levels) (Expr.yield x.leaf) := by
  induction levels with
  | zero => exact ⟨tooDeep_yields, tooDeep_yields⟩
  | succ levels ih =>
    obtain ⟨hu, hp⟩ := ih
    exact ⟨(unaryBody_yields hu hp).nested, (binaryFrom_yields hu hp _).nested⟩

/-- An expression takes down its words. -/
theorem expression_yields (levels : Nat) : Yields x (expression levels) (Expr.yield x.leaf) :=
  binaryFrom_yields (operands_yield levels).1 (operands_yield levels).2 1

end Grammar

end Plc

/-
Reading a text loses none of its words.

The words of the tree that a text is read as are the words of the text, the signs before operands
aside; and each operator of the tree takes the operands that its precedence asks for.

* `Reading.expression_yield` — the words of an expression;
* `Reading.statements_yield` — the words of statements, each construct counted by its words.
-/
import Plc.Proofs.Grammar.Precedence
import Plc.Proofs.RoundTrip.Printed
import Plc.Proofs.Yield.Count
import Plc.Proofs.Yield.Stmt

namespace Plc

open Grammar

theorem Dialect.noPragmas {d : Dialect} (standard : d = .generic ∨ d = .rockwell) :
    d.pragmas = false := by
  obtain rfl | rfl := standard
  · rfl
  · rfl

/-- Where a rule begins that reads a text to its end: the text is cut into tokens, none of them a
pragma. -/
theorem Reading.strictly_starts {α : Type} {r : Reading} {rule : Nat → Rule α} {a : α}
    (plain : r.dialect.pragmas = false) (h : r.strictly rule = .ok a) :
    ∃ ts fin c, tokens r.dialect r.source = .ok (ts ++ [fin]) ∧
      rule r.limits.maxDepth ⟨r.source, r.dialect, r.limits, false, fin⟩ { rest := ts } = .ok a c := by
  obtain ⟨errors, hrun⟩ := strictly_eq_ok_iff.1 h
  obtain ⟨all, c, within, hrule, -⟩ := run_eq_ok_iff.1 hrun
  have cut : tokens r.dialect r.source = .ok all := tokens_of_tokensWithin within
  obtain ⟨ts, fin, -, -, rfl, -⟩ := scans_of_tokens' cut
  have start : Cursor.before (ts ++ [fin]) = { rest := ts } := by
    unfold Cursor.before
    rw [List.dropLast_concat, liftPragmas_none fun t ht p seen => ?_]
    have known := Token.pragmas cut (List.mem_append_left _ ht) seen
    rw [plain] at known
    cases known
  rw [start, List.getLastD_concat] at hrule
  exact ⟨ts, fin, c, cut, hrule⟩

/-- An expression has the words of the text that it was read from, in the text's order; only the
plus signs before operands leave no word.  Every operator in it takes the operands that its
precedence asks for. -/
theorem Reading.expression_yield {r : Reading} {e : Expr}
    (standard : r.dialect = .generic ∨ r.dialect = .rockwell) (h : r.expression = .ok e) :
    ∃ ts fin, tokens r.dialect r.source = .ok (ts ++ [fin]) ∧ fin.lexeme.isFinish = true ∧
      e.yield (fun text => wordsOf r.dialect text.toList) =
        withoutSigns false (ts.map Token.sign) ∧ e.IsGrouped := by
  obtain ⟨ts, fin, c, cut, run⟩ := strictly_starts (Dialect.noPragmas standard) h
  let x : Transcript := {
    setting := ⟨r.source, r.dialect, r.limits, false, fin⟩
    all := ts
    cut := cut
    strict := rfl
    standard := standard
    leaf := fun text => wordsOf r.dialect text.toList
    leaf_eq := fun _ _ => rfl
    norm := id
    norm_nil := rfl
    norm_concat := fun _ _ _ _ => rfl }
  obtain ⟨y, c₁, read, rest⟩ := bind_eq_ok_iff.1 run
  obtain ⟨u, c₂, ends, same⟩ := bind_eq_ok_iff.1 rest
  cases same
  have taken := expression_yields (x := x) r.limits.maxDepth [] Taken.start read
  obtain ⟨-, words⟩ := Taken.expectEnd taken ends
  exact ⟨ts, fin, cut, x.isFinish, words.symm, expression_grouped _ trivial read⟩

/-- Signs of both kinds, `NOT` to the right of a comparison, and a call. -/
def signedText : Reading :=
  ⟨"+a - -b ** c.1 >= NOT f(x := +1)".toList, .generic, {}⟩

/-- The signs before `a` and `1` leave no word. -/
theorem Reading.expression_yield_signed :
    ∃ e, signedText.expression = .ok e ∧ ∃ ts fin,
      tokens signedText.dialect signedText.source = .ok (ts ++ [fin]) ∧ fin.lexeme.isFinish = true ∧
        e.yield (fun text => wordsOf signedText.dialect text.toList) =
          withoutSigns false (ts.map Token.sign) ∧ e.IsGrouped := by
  have accepted : signedText.expression.toOption.isSome = true := by decide +kernel
  obtain ⟨e, h⟩ := ok_of_isSome accepted
  exact ⟨e, h, expression_yield (.inl rfl) h⟩

/-- The words of an operand, if a text has no other. -/
def operandWords (d : Dialect) (text : String) : List Word :=
  (wordsOf d text.toList).filter (·.lexeme.isInOperand)

theorem blockWords_operandWords (d : Dialect) (text : String) : blockWords (operandWords d text) = [] := by
  refine List.filterMap_eq_nil_iff.2 fun w hw => ?_
  have operand := (List.mem_filter.1 hw).2
  cases known : w.lexeme with
  | keyword k =>
    rw [known] at operand
    cases k <;> first | rfl | cases operand
  | mark m =>
    rw [known] at operand
    cases m <;> first | rfl | cases operand
  | _ => rfl

/-- The words of the tokens that a list of statements was read from, whatever the words of a text
without parts are. -/
theorem Reading.statements_taken {r : Reading} {declared : List String} {ss : List Stmt}
    (standard : r.dialect = .generic ∨ r.dialect = .rockwell) (h : r.statements declared = .ok ss) :
    ∃ ts fin, tokens r.dialect r.source = .ok (ts ++ [fin]) ∧ fin.lexeme.isFinish = true ∧
      (∀ t ∈ ts, t.lexeme.isSound = true) ∧
      ∀ leaf : String → List Word, (∀ text, (∀ w ∈ wordsOf r.dialect text.toList,
          w.lexeme.isInOperand = true) → leaf text = wordsOf r.dialect text.toList) →
        Stmt.yieldAll leaf ss = withoutOptional none (withoutSigns false (ts.map Token.sign)) := by
  obtain ⟨ts, fin, c, cut, run⟩ := strictly_starts (Dialect.noPragmas standard) h
  let x (leaf : String → List Word) (leaf_eq : ∀ text, (∀ w ∈ wordsOf r.dialect text.toList,
      w.lexeme.isInOperand = true) → leaf text = wordsOf r.dialect text.toList) : Transcript := {
    setting := ⟨r.source, r.dialect, r.limits, false, fin⟩
    all := ts
    cut := cut
    strict := rfl
    standard := standard
    leaf := leaf
    leaf_eq := leaf_eq
    norm := withoutOptional none
    norm_nil := rfl
    norm_concat := fun ws w => withoutOptional_concat none ws }
  have taken (leaf : String → List Word) (leaf_eq) :=
    allStatements_yields (x := x leaf leaf_eq) rfl r.limits.maxDepth declared Between.start run
  refine ⟨ts, fin, cut, (x _ fun _ _ => rfl).isFinish, (taken _ fun _ _ => rfl).1, fun leaf leaf_eq => ?_⟩
  exact (taken leaf leaf_eq).2.symm

/-- Statements have the words of the text that they were read from, in the text's order: only the
plus signs before operands and the semicolons that may be left out leave no word.  So no token of
the text is malformed or without a meaning, and each word of a construct comes as often as the
constructs that are written with it. -/
theorem Reading.statements_yield {r : Reading} {declared : List String} {ss : List Stmt}
    (standard : r.dialect = .generic ∨ r.dialect = .rockwell) (h : r.statements declared = .ok ss) :
    ∃ ts fin, tokens r.dialect r.source = .ok (ts ++ [fin]) ∧ fin.lexeme.isFinish = true ∧
      (∀ t ∈ ts, t.lexeme.isSound = true) ∧
      Stmt.yieldAll (fun text => wordsOf r.dialect text.toList) ss =
        withoutOptional none (withoutSigns false (ts.map Token.sign)) ∧
      (∀ k p, (k, p) ∈ Node.constructs →
        ts.countP (·.lexeme.is k) = (Stmt.nodesAll ss).countP p) ∧
      ts.countP (·.lexeme.is Keyword.ELSIF) = ((Stmt.nodesAll ss).map Node.elsifs).sum := by
  obtain ⟨ts, fin, cut, ends, sound, words⟩ := statements_taken standard h
  refine ⟨ts, fin, cut, ends, sound, words _ fun _ _ => rfl, ?_⟩
  have counted {k : Terminal} (block : k.isBlock = true) :
      ts.countP (·.lexeme.is k) = (Node.blockWordsAll (Stmt.nodesAll ss)).count k := by
    rw [← Stmt.count_yieldAll (blockWords_operandWords r.dialect), words (operandWords r.dialect) ?_,
      blockWords_withoutOptional, blockWords_withoutSigns, count_blockWords_eq block, List.countP_map]
    · simp [Function.comp_def, Token.sign_lexeme]
    · intro text operand
      exact List.filter_eq_self.2 operand
  refine ⟨fun k p listed => ?_, ?_⟩
  · rw [counted (Node.isBlock_of_constructs listed), Node.count_constructs listed]
  · rw [counted rfl, Node.count_blockWordsAll]
    simp only [Node.count_elsifs]

/-- Constructs with and without a semicolon after them. -/
def nestedText : Reading :=
  ⟨"IF +a > 1 THEN b := 1; ELSIF c THEN f(x := 2); END_IF REPEAT b := b + 1; ; UNTIL b = 3; END_REPEAT;".toList,
    .rockwell, {}⟩

/-- The semicolons before and after `END_REPEAT` leave no word. -/
theorem Reading.statements_yield_nested :
    ∃ ss, nestedText.statements [] = .ok ss ∧ ∃ ts fin,
      tokens nestedText.dialect nestedText.source = .ok (ts ++ [fin]) ∧ fin.lexeme.isFinish = true ∧
        (∀ t ∈ ts, t.lexeme.isSound = true) ∧
        Stmt.yieldAll (fun text => wordsOf nestedText.dialect text.toList) ss =
          withoutOptional none (withoutSigns false (ts.map Token.sign)) ∧
        (∀ k p, (k, p) ∈ Node.constructs →
          ts.countP (·.lexeme.is k) = (Stmt.nodesAll ss).countP p) ∧
        ts.countP (·.lexeme.is Keyword.ELSIF) = ((Stmt.nodesAll ss).map Node.elsifs).sum := by
  have accepted : (nestedText.statements []).toOption.isSome = true := by decide +kernel
  obtain ⟨ss, h⟩ := ok_of_isSome accepted
  exact ⟨ss, h, statements_yield (.inr rfl) h⟩

end Plc

/-
The spans of a tree nest.

In a tree that a text is read as, each node lies inside the text, covers its children, and these
stand one after another; so do the statements of a list.  This holds for the statements that are
left when errors are recovered from, too.

* `Cursor.before_inOrder` — the tokens of a text are in order;
* `Reading.spans_nest` — expressions, statements, and statements around errors.
-/
import Plc.Proofs.Nesting.Stmt
import Plc.Proofs.Token.Tiling

namespace Plc

open Grammar

/-- The trees stand one after another in the text, and in each of them every node lies inside the
text, covers its children and has them in the order of the text.  A walk comes to the nodes in the
order in which they begin. -/
structure Nest (source : List Char) (trees : List Node) : Prop where
  placed : ∀ n ∈ trees, ∀ m ∈ n.nodes, m.IsPlaced source.length
  inOrder : trees.Pairwise fun a b => a.span.IsBefore b.span
  walk : (trees.flatMap Node.nodes).Pairwise fun a b => a.span.start ≤ b.span.start

theorem Row.nest {source : List Char} {lo hi : Nat} {ns : List Node}
    (h : Row source.length lo hi ns) : Nest source ns :=
  ⟨h.placed, h.inOrder, h.walk⟩

namespace Grammar

/-- The tokens of a text are in order where its reading begins. -/
theorem Cursor.before_inOrder {source : List Char} {d : Dialect} {l : Limits} {recovers : Bool}
    {ts : List Token} (h : tokensWithin l d source = .ok ts) :
    InOrder ⟨source, d, l, recovers, ts.getLastD (Scanner.finish source.length)⟩ (.before ts) := by
  obtain ⟨front, rfl, goes, row, -⟩ := tokens_row (tokens_of_tokensWithin h)
  have sub := liftPragmas_sublist 0 [] (front ++ [Scanner.finish source.length]).dropLast
  rw [List.dropLast_concat] at sub
  have start : (Cursor.before (front ++ [Scanner.finish source.length])).rest =
      (liftPragmas 0 [] front).1 := by
    unfold Cursor.before
    rw [List.dropLast_concat]
  constructor
  · exact List.getLastD_concat
  · exact Nat.zero_le _
  · intro t ht
    rw [start] at ht
    exact goes t (sub.subset ht)
  · exact fun t _ => Nat.zero_le _
  · rw [start]
    exact ((List.pairwise_append.1 row).1).sublist sub

/-- What a rule for a whole text lays out stands side by side in the text. -/
theorem Lays.run_nest {α : Type} {rule : Rule α} {made : α → List Node} (h : Lays rule made)
    {source : List Char} {l : Limits} {d : Dialect} {recovers : Bool} {a : α}
    {errors : List SyntaxError} (hrun : run rule source l d recovers = .ok (a, errors)) :
    Nest source (made a) := by
  obtain ⟨ts, c, within, hrule, -⟩ := run_eq_ok_iff.1 hrun
  exact (h _ _ (Cursor.before_inOrder within) ⟨rfl, rfl⟩ hrule).row.nest

theorem whole_lays {α : Type} {rule : Nat → Rule α} {made : α → List Node} {levels : Nat}
    (h : Lays (rule levels) made) : Lays (Reading.whole rule levels) made := by
  intro x b hb
  refine Triple.bind (h x b hb) fun a => ?_
  exact Triple.bind (Rows.quiet proceeds.expectEnd_rel) fun _ => .pure fun s c rows => rows

theorem allStatements_lays (levels : Nat) (declared : List String) :
    Lays (allStatements levels declared) (List.map .stmt) := by
  intro x b hb
  refine Triple.bind (Lays.declaring declared (body_lays levels []) x b hb) fun ss => ?_
  have ends : Proceeds finishText := by
    refine Proceeds.bind (.of_same fun _ _ => ⟨rfl, rfl⟩) fun setting => ?_
    refine Proceeds.bind proceeds.atEnd_rel fun atEnd => .ite ?_ proceeds.expectEnd_rel
    exact Proceeds.bind (proceeds.unexpected_rel _) fun e => proceeds.report e
  exact Triple.bind (Rows.quiet ends) fun _ => .pure fun s c rows => rows

end Grammar

namespace Reading

/-- In every dialect and under any limits, with any names declared, the spans of the expression or
the statements that a text is read as nest and follow the order of the text; so do those of the
statements that are left where errors are recovered from. -/
theorem spans_nest (r : Reading) (declared : List String) :
    (∀ e, r.expression = .ok e → Nest r.source [.expr e]) ∧
      (∀ ss, r.statements declared = .ok ss → Nest r.source (ss.map .stmt)) ∧
      ∀ ss errors, r.statementsRecovering declared = .ok (ss, errors) →
        Nest r.source (ss.map .stmt) := by
  refine ⟨fun e h => ?_, fun ss h => ?_, fun ss errors h => ?_⟩
  · obtain ⟨errors, hrun⟩ := strictly_eq_ok_iff.1 h
    exact (whole_lays (expression_lays r.limits.maxDepth)).run_nest hrun
  · obtain ⟨errors, hrun⟩ := strictly_eq_ok_iff.1 h
    exact (allStatements_lays r.limits.maxDepth declared).run_nest hrun
  · exact (allStatements_lays r.limits.maxDepth declared).run_nest h

/-- Signs before operands, and a call with an empty place. -/
def gapExpression : Reading := ⟨"+ + a.b * f(x, , - y)".toList, .rockwell, {}⟩

/-- A construct with an annotation, a call whose instance is declared, and an error in it. -/
def brokenStatements : Reading :=
  ⟨"IF a THEN \x7bp\x7d t(x := +1); ELSIF b THEN c := ; END_IF; #d := e[1, 2];".toList, .scl, {}⟩

/-- The broken statement is dropped, and the statement around it is kept. -/
theorem spans_nest_gap : (∃ e, gapExpression.expression = .ok e ∧
      Nest gapExpression.source [.expr e]) ∧
    ∃ ss errors, brokenStatements.statementsRecovering ["t"] = .ok (ss, errors) ∧
      Nest brokenStatements.source (ss.map .stmt) := by
  have read : gapExpression.expression.toOption.isSome = true := by decide +kernel
  have around : (brokenStatements.statementsRecovering ["t"]).toOption.isSome = true := by
    decide +kernel
  constructor
  · obtain ⟨e, h⟩ := ok_of_isSome read
    exact ⟨e, h, (spans_nest gapExpression []).1 e h⟩
  · obtain ⟨⟨ss, errors⟩, h⟩ := ok_of_isSome around
    exact ⟨ss, errors, h, (spans_nest brokenStatements ["t"]).2.2 ss errors h⟩

end Reading

end Plc

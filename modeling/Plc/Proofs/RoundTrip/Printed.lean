/-
Printed statements are read back.

The text that is printed for well-formed statements is cut into their words, and these
are read as the statements again, places and parentheses aside.  Only a bound on the reading
can come in between.

* `Reading.statements_textAll` — a printed text is read as what it was printed from;
* `Reading.statements_textAll_unlabelled` — not so where a branch of a `CASE` statement has no label;
* `Reading.statements_textAll_quotedMember` — a quoted name after a point is printed without its
  quotes, and the printed text may then be refused.
-/
import Plc.Proofs.Fallible
import Plc.Proofs.RoundTrip.Statement

namespace Plc

open Grammar

namespace Grammar

variable {names : List (List String)}

/-- At the end of the text nothing is left over after the statements. -/
theorem Reads.seesStray (d : Dialect) (ends : List Keyword) :
    Reads d names (seesStray ends) (· = false) [] [] := by
  refine .look .lexeme fun s c before => .inl ⟨_, c, rfl, ?_, before⟩
  show (s.recovers && isStray ends .finish) = false
  rw [show isStray ends .finish = false by simp [isStray, Lexeme.isAmong, Lexeme.isFinish],
    Bool.and_false]

theorem Reads.finishText (d : Dialect) : Reads d names finishText (fun _ => True) [] [] := by
  have ended : Reads d names Grammar.atEnd (· = true) [] [] := Reads.atEnd
  have setting : Reads d names (read : Rule Setting) (fun _ => True) [] [] :=
    fun s c before => .inl ⟨s, c, rfl, trivial, before⟩
  refine setting.bind fun s _ => .look ended (.ite_neg ?_ (.look ended ?_))
  · rw [Bool.not_true, Bool.and_false]
    exact Bool.false_ne_true
  · exact .ite_neg Bool.false_ne_true (.pure trivial)

/-- A text of printable statements is read as these statements. -/
theorem allStatements_reads {d : Dialect} {declared : List String} {ss : List Stmt}
    (h : Stmt.PrintableAll d declared ss) (levels : Nat) :
    Reads d [] (allStatements levels declared)
      (fun as => Stmt.bareAll as = Stmt.bareAll ss) (Stmt.wordsAll d ss) [] := by
  have first : Reads d [declared] (statementList (statement levels))
      (fun as => Stmt.bareAll as = Stmt.bareAll ss) (Stmt.wordsAll d ss ++ []) [] :=
    statementList_reads (Stmt.readsBackAll ss h) rfl levels
  rw [List.append_nil] at first
  have whole : Reads d [declared] (body levels [])
      (fun as => Stmt.bareAll as = Stmt.bareAll ss) (Stmt.wordsAll d ss) [] := by
    refine first.bind fun as same => Reads.passes.bind fun n _ => ?_
    refine (Reads.many_done (S := (· = [])) (Reads.seesStray d []) rfl n _).bind ?_
    rintro _ rfl
    exact .pure (by rw [List.append_nil]; exact same)
  refine whole.declaring.bind fun as same => ?_
  exact (Reads.finishText d).bind fun _ _ => .pure same

end Grammar

namespace Reading

theorem liftPragmas_none {ts : List Token} (h : ∀ t ∈ ts, ∀ p, t.lexeme ≠ .pragma p) (index : Nat) :
    liftPragmas index [] ts = (ts, []) := by
  induction ts generalizing index with
  | nil => rfl
  | cons t ts ih =>
    have plain := h t List.mem_cons_self
    unfold liftPragmas
    split
    · next p same => exact absurd same (plain p)
    · rw [ih fun u hu => h u (List.mem_cons_of_mem _ hu)]
      rfl

/-- A rule that reads some words reads a text that is cut into them. -/
theorem strictly_of_reads {α : Type} {rule : Nat → Rule α} {P : α → Prop} {r : Reading} {ws : List Word}
    (cut : Cut r.dialect r.source ws []) (opens : r.source.head? ≠ some '\ufeff')
    (h : Reads r.dialect [] (rule r.limits.maxDepth) P ws []) :
    (∃ a, r.strictly rule = .ok a ∧ P a) ∨ ∃ e, r.strictly rule = .error (.limit e) := by
  obtain ⟨ts, fin, scanned, words, last, plain⟩ := cut.scan opens
  -- Besides the rule itself, only the two limits on the text can end the reading.
  unfold strictly run tokensWithin
  cases r.limits.check .inputSize (utf8Size r.source) with
  | error e => exact .inr ⟨e, rfl⟩
  | ok u =>
    dsimp only
    rw [scanned]
    dsimp only
    cases (ts ++ [fin]).drop r.limits.maxIterations with
    | cons t more => exact .inr ⟨_, rfl⟩
    | nil =>
      dsimp only
      have start : Cursor.before (ts ++ [fin]) = { rest := ts } := by
        unfold Cursor.before
        rw [List.dropLast_concat, liftPragmas_none plain]
      have finish : (ts ++ [fin]).getLastD (Scanner.finish r.source.length) = fin := by simp
      rw [start, finish]
      obtain ⟨a, c, run, ha, -⟩ | ⟨e, c, run⟩ :=
        h ⟨r.source, r.dialect, r.limits, false, fin⟩ { rest := ts } ⟨rfl, last, rfl, words⟩
      · rw [run]
        exact .inl ⟨a, rfl, ha⟩
      · rw [run]
        exact .inr ⟨e, rfl⟩

/-- Statements of the generic language are read back from the text that is printed for them, at any
depth of indentation and under any limits: the reading gives the same statements, places and
parentheses aside, or ends because a limit is passed. -/
theorem statements_textAll {declared : List String} {ss : List Stmt}
    (h : Stmt.WellFormedAll declared ss) (labelled : Stmt.IsLabelledAll ss) (depth : Nat)
    (limits : Limits) :
    (∃ ss', (Reading.mk (Stmt.textAll ss depth).toList .generic limits).statements declared = .ok ss' ∧
        Stmt.bareAll ss' = Stmt.bareAll ss) ∨
      ∃ e, (Reading.mk (Stmt.textAll ss depth).toList .generic limits).statements declared =
        .error (.limit e) := by
  have printable : Stmt.PrintableAll .generic declared ss := h.printable labelled
  obtain ⟨cut, opens⟩ := Stmt.textAll_cut printable depth
  exact strictly_of_reads cut opens (allStatements_reads printable _)

/-- The expression is the literal `1`. -/
def isOne : Expr → Bool
  | .literal _ ⟨.integer 1, "1", none⟩ => true
  | _ => false

/-- One statement: `CASE x OF 1: y := (a ** b) ** -(-c); ELSE END_CASE;`, without parentheses in the
tree. -/
def labelledCase : Stmt :=
  let var (n : String) : Expr := .variable (.named .zero n .plain)
  let powers : Expr := .binary .zero .power (var "a") (var "b")
  let signs : Expr := .unary .zero .neg (.unary .zero .neg (var "c"))
  let assigns : Stmt :=
    .assignment .zero (.named .zero "y" .plain) .assign (.binary .zero .power powers signs)
  .caseOf .zero (var "x") [.mk .zero [.value .zero (.literal .zero ⟨.integer 1, "1", none⟩)] [assigns]]
    (some [])

/-- Parentheses that the tree does not hold are printed where they are needed, and read back. -/
theorem statements_textAll_labelledCase :
    Stmt.WellFormedAll [] [labelledCase] ∧ Stmt.IsLabelledAll [labelledCase] ∧
      ∃ ss', (Reading.mk (Stmt.textAll [labelledCase] 1).toList .generic {}).statements [] = .ok ss' ∧
        Stmt.bareAll ss' = Stmt.bareAll [labelledCase] := by
  have name (n : String) (h : isIdentifier .generic n = true) :
      (Variable.named .zero n .plain).WellFormed := ⟨rfl, h⟩
  have one : Literal.IsOwnText ⟨.integer 1, "1", none⟩ := by
    have seen : (Reading.mk "1".toList .generic {}).expression.toOption.any isOne = true := by
      decide +kernel
    obtain ⟨x, read, same⟩ := ok_of_any seen
    unfold isOne at same
    split at same
    · next s => exact ⟨rfl, {}, s, read⟩
    · cases same
  have formed : Stmt.WellFormedAll [] [labelledCase] := by
    refine ⟨⟨name "x" (by decide), ⟨⟨?_, ?_⟩, trivial⟩, trivial⟩, trivial⟩
    · rintro s hs
      obtain rfl := List.mem_singleton.1 hs
      exact ⟨⟨1, rfl⟩, one⟩
    · exact ⟨⟨name "y" (by decide), rfl,
        ⟨name "a" (by decide), name "b" (by decide)⟩, name "c" (by decide)⟩, trivial⟩
  have labelled : Stmt.IsLabelledAll [labelledCase] :=
    ⟨⟨⟨⟨List.cons_ne_nil _ _, trivial, trivial⟩, trivial⟩, trivial⟩, trivial⟩
  refine ⟨formed, labelled, (statements_textAll formed labelled 1 {}).resolve_right ?_⟩
  rintro ⟨e, limit⟩
  have accepted : ((Reading.mk (Stmt.textAll [labelledCase] 1).toList .generic {}).statements
      []).toOption.isSome = true := by decide +kernel
  obtain ⟨ss, read⟩ := ok_of_isSome accepted
  cases limit.symm.trans read

/-- One statement: `CASE x OF`, with a branch that has no label. -/
def unlabelledCase : Stmt :=
  .caseOf .zero (.variable (.named .zero "x" .plain)) [.mk .zero [] []] none

/-- The text breaks the grammar. -/
def isRefused {α : Type} : Except Fault α → Bool
  | .error (.grammar _) => true
  | _ => false

/-- A printed text need not be read back when a branch of a `CASE` statement has no label. -/
theorem statements_textAll_unlabelled :
    ¬∀ (declared : List String) (ss : List Stmt) (depth : Nat) (limits : Limits),
      Stmt.WellFormedAll declared ss →
        (∃ ss', (Reading.mk (Stmt.textAll ss depth).toList .generic limits).statements declared =
            .ok ss' ∧ Stmt.bareAll ss' = Stmt.bareAll ss) ∨
          ∃ e, (Reading.mk (Stmt.textAll ss depth).toList .generic limits).statements declared =
            .error (.limit e) := by
  intro h
  have name : isIdentifier .generic "x" = true := by decide
  have formed : Stmt.WellFormedAll [] [unlabelledCase] :=
    ⟨⟨⟨rfl, name⟩, ⟨nofun, trivial⟩, trivial⟩, trivial⟩
  let r : Reading := ⟨(Stmt.textAll [unlabelledCase]).toList, .generic, {}⟩
  have refused : isRefused (r.statements []) = true := by decide +kernel
  obtain ⟨ss', read, -⟩ | ⟨e, read⟩ := h [] [unlabelledCase] 0 {} formed
  · simp [show r.statements [] = _ from read, isRefused] at refused
  · simp [show r.statements [] = _ from read, isRefused] at refused

/-- The statements of an accepted text need not be read back from what is printed for them. -/
theorem statements_textAll_quotedMember :
    ¬∀ (d : Dialect) (declared : List String) (source : List Char) (limits : Limits)
        (ss : List Stmt),
      (Reading.mk source d limits).statements declared = .ok ss →
        ∃ ss', (Reading.mk (Stmt.textAll ss).toList d limits).statements declared = .ok ss' ∧
          Stmt.bareAll ss' = Stmt.bareAll ss := by
  intro h
  let r : Reading := ⟨"a.\"b c\" := 1;".toList, .scl, {}⟩
  have lost : (match r.statements [] with
      | .ok ss => ((Reading.mk (Stmt.textAll ss).toList .scl {}).statements []).toOption.isNone
      | .error _ => false) = true := by decide +kernel
  cases read : r.statements [] with
  | error e =>
    rw [read] at lost
    cases lost
  | ok ss =>
    rw [read] at lost
    obtain ⟨ss', again, -⟩ := h .scl [] r.source {} ss read
    simp [again, Except.toOption] at lost

end Reading

end Plc

/-
The layout of a text does not matter.

Two texts that are cut into the same words are read alike: both as statements that differ in their
places only, or both with errors of one kind.  Two things of the text itself are seen by a reading.
Its size counts blanks and comments, so the bound on it must fall on the same side for both; and a
literal with a type in front has the characters that it is written in, gaps included.

* `Reading.statements_layout` — statements and their duplicates do not depend on the layout;
* `Reading.layout_seen` — where the two readings can be told apart after all.
-/
import Plc.Proofs.Formatting.Stmt
import Plc.Proofs.Formatting.Smell
import Plc.Proofs.Token.Class
import Plc.Reading

namespace Plc

/-- Two outcomes that `f` does not tell apart, or faults of one kind. -/
inductive SameOutcome {α γ : Type} (f : α → γ) : Except Fault α → Except Fault α → Prop
  | ok {a a' : α} (same : f a = f a') : SameOutcome f (.ok a) (.ok a')
  | error {e e' : Fault} (same : e.SameKind e') : SameOutcome f (.error e) (.error e')

namespace Grammar

variable {α γ : Type} {f : α → γ} {d : Dialect} {l : Limits} {source source' : List Char}
  {ts ts' : List Token}

/-! ### The tokens of both texts -/

theorem tokensWithin_tooBig (large : ¬ utf8Size source ≤ l.maxInputSize) :
    tokensWithin l d source =
      .error (.limit ⟨.inputSize, l.maxInputSize, utf8Size source, .zero⟩) := by
  unfold tokensWithin Limits.check
  rw [if_neg (show ¬ utf8Size source ≤ l.bound .inputSize from large)]
  rfl

theorem tokensWithin_small (h : tokens d source = .ok ts)
    (small : utf8Size source ≤ l.maxInputSize) :
    tokensWithin l d source = match ts.drop l.maxIterations with
      | t :: _ => .error (.limit ⟨.iterations, l.maxIterations, l.maxIterations + 1, t.span⟩)
      | [] => .ok ts := by
  have scanned : scan d source = (ts, none) := by
    unfold tokens at h
    split at h
    · next hscan =>
      cases h
      exact hscan
    · cases h
  have fits : l.check .inputSize (utf8Size source) = .ok () := Limits.check_eq_ok_iff.2 small
  cases left : ts.drop l.maxIterations <;> simp [tokensWithin, fits, scanned, left]

/-- Texts of the same words are both within the limits, or both not. -/
theorem tokensWithin_words (h : tokens d source = .ok ts) (h' : tokens d source' = .ok ts')
    (words : ts.map Token.word = ts'.map Token.word)
    (size : utf8Size source ≤ l.maxInputSize ↔ utf8Size source' ≤ l.maxInputSize) :
    (tokensWithin l d source = .ok ts ∧ tokensWithin l d source' = .ok ts') ∨
      ∃ e e', tokensWithin l d source = .error e ∧ tokensWithin l d source' = .error e' ∧
        e.SameKind e' := by
  by_cases small : utf8Size source ≤ l.maxInputSize
  · -- The first token past the bound, if there is one, is at the same position in both lists.
    rw [tokensWithin_small h small, tokensWithin_small h' (size.1 small)]
    have left := congrArg (List.drop l.maxIterations) words
    rw [← List.map_drop, ← List.map_drop] at left
    cases hts : ts.drop l.maxIterations with
    | nil =>
      rw [hts] at left
      rw [List.map_eq_nil_iff.1 left.symm]
      exact .inl ⟨rfl, rfl⟩
    | cons t _ =>
      rw [hts] at left
      obtain ⟨t', us, hts', -⟩ := List.map_eq_cons_iff.1 left.symm
      rw [hts']
      exact .inr ⟨_, _, rfl, rfl, .limit rfl⟩
  · rw [tokensWithin_tooBig small, tokensWithin_tooBig (mt size.2 small)]
    exact .inr ⟨_, _, rfl, rfl, .limit rfl⟩

/-- The pragmas of two lists of tokens stand at the same places. -/
theorem liftPragmas_words (index : Nat) (pending pending' : List Token)
    (h : ts.map Token.word = ts'.map Token.word) :
    (liftPragmas index pending ts).1.map Token.word =
      (liftPragmas index pending' ts').1.map Token.word := by
  induction ts generalizing ts' index pending pending' with
  | nil =>
    obtain rfl : ts' = [] := List.map_eq_nil_iff.1 h.symm
    rfl
  | cons t ts ih =>
    obtain ⟨t', us, rfl, same, others⟩ := List.map_eq_cons_iff.1 h.symm
    obtain ⟨span, rfl⟩ := Token.elsewhere same.symm
    unfold liftPragmas
    dsimp only
    split
    · exact ih _ _ _ others.symm
    · exact congrArg (t.word :: ·) (ih _ _ _ others.symm)

/-- What is ahead at the beginning of both texts. -/
theorem Side.before {x : Pair} {front front' : List Token} (last last' : Token)
    (words : front.map Token.word = front'.map Token.word)
    (allowed : ∀ t ∈ front, ∀ k, x.barred k = true → t.lexeme.is k = false) :
    Side x (.before (front ++ [last])) (.before (front' ++ [last'])) where
  rest := by
    show (liftPragmas 0 [] (front ++ [last]).dropLast).1.map Token.word =
      (liftPragmas 0 [] (front' ++ [last']).dropLast).1.map Token.word
    rw [List.dropLast_concat, List.dropLast_concat]
    exact liftPragmas_words 0 [] [] words
  usage := rfl
  declared := rfl
  allowed t ht := by
    have kept : t ∈ (liftPragmas 0 [] (front ++ [last]).dropLast).1 := ht
    rw [List.dropLast_concat] at kept
    exact allowed t ((liftPragmas_sublist 0 [] front).subset kept)

theorem EndAlike.outcome {x : Pair} {run run' : EStateM.Result Fault Cursor α}
    (h : EndAlike x f run run') :
    SameOutcome f ((outcome run).map (·.1)) ((outcome run').map (·.1)) := by
  cases h with
  | ok same => exact .ok same
  | error same => exact .error same

end Grammar

namespace Reading

open Grammar

variable {r : Reading} {source' : List Char} {ts ts' : List Token}

/-- Another text, read in the same way. -/
def relaid (r : Reading) (source' : List Char) : Reading := { r with source := source' }

/-- Texts of the same words, none of them barred, are read alike as far as the view of their
literals goes. -/
theorem statements_words (view : Literal → Literal) (barred : Terminal → Bool)
    (region : barred Keyword.REGION = true)
    (typed : barred Mark.hash = true ∨
      ∀ value text text' type, view ⟨value, text, some type⟩ = view ⟨value, text', some type⟩)
    (h : tokens r.dialect r.source = .ok ts) (h' : tokens r.dialect source' = .ok ts')
    (words : ts.map Token.word = ts'.map Token.word)
    (size : utf8Size r.source ≤ r.limits.maxInputSize ↔ utf8Size source' ≤ r.limits.maxInputSize)
    (allowed : ∀ t ∈ ts, ∀ k, barred k = true → t.lexeme.is k = false) (declared : List String) :
    SameOutcome (List.map (Stmt.shape view)) (r.statements declared)
      ((r.relaid source').statements declared) := by
  unfold statements strictly run relaid
  dsimp only
  obtain ⟨within, within'⟩ | ⟨e, e', fails, fails', same⟩ := tokensWithin_words h h' words size
  · -- The end of the text comes last in both lists, and the cursors start before the others.
    obtain ⟨front, last, _, _, rfl, -, -, ends⟩ := scans_of_tokens' h
    obtain ⟨front', last', _, _, rfl, -, -, -⟩ := scans_of_tokens' h'
    rw [List.map_append, List.map_append] at words
    obtain ⟨hfront, hlast⟩ := List.append_inj' words rfl
    rw [within, within']
    dsimp only
    rw [List.getLastD_concat, List.getLastD_concat]
    let x : Pair := {
      one := ⟨r.source, r.dialect, r.limits, false, last⟩
      other := ⟨source', r.dialect, r.limits, false, last'⟩
      dialect := rfl
      limits := rfl
      finish := (List.cons.inj hlast).1
      ends := ends
      strict := ⟨rfl, rfl⟩
      view := view
      barred := barred
      region := region
      typed := typed }
    have side : Side x (.before (front ++ [last])) (.before (front' ++ [last'])) :=
      .before last last' hfront fun t ht => allowed t (List.mem_append_left _ ht)
    exact (allStatements_twin r.limits.maxDepth declared _ _ side).outcome
  · rw [fails, fails']
    exact .error same

/-- The words that a text is cut into, in the order of the text; its end is the last. -/
def words? (d : Dialect) (source : List Char) : Option (List Word) :=
  (tokens d source).toOption.map (List.map Token.word)

theorem tokens_of_words? {d : Dialect} {source : List Char} {ws : List Word}
    (h : words? d source = some ws) : ∃ ts, tokens d source = .ok ts ∧ ts.map Token.word = ws := by
  unfold words? at h
  cases cut : tokens d source with
  | ok ts =>
    rw [cut] at h
    exact ⟨ts, rfl, Option.some.inj h⟩
  | error f =>
    rw [cut] at h
    cases h

/-- No text of the generic language or of tag-based controllers has a region. -/
theorem regionless (flavour : r.dialect = .generic ∨ r.dialect = .rockwell)
    (h : tokens r.dialect r.source = .ok ts) : ∀ t ∈ ts, t.lexeme.is Keyword.REGION = false := by
  intro t ht
  cases word : t.lexeme with
  | keyword k =>
    have known := Token.reserved h ht word
    have other : k ≠ .REGION := by
      rintro rfl
      obtain generic | rockwell := flavour
      · rw [generic] at known
        cases known
      · rw [rockwell] at known
        cases known
    exact beq_false_of_ne other
  | _ => rfl

/-- The layout of a text does not matter.  A text of the generic language or of tag-based
controllers is read like every other text of its words, under all limits with the bound on the size
of a text on the same side of both: the statements are the same up to their places and up to the
characters of literals with a type in front, or both readings end with errors of one kind.  Where nothing is
written with a type in front the statements are the same up to their places; there, and wherever
these literals come out alike, they have the same duplicates. -/
theorem statements_layout (r : Reading) (source' : List Char) (declared : List String)
    {ws : List Word} (flavour : r.dialect = .generic ∨ r.dialect = .rockwell)
    (h : words? r.dialect r.source = some ws) (h' : words? r.dialect source' = some ws)
    (size : utf8Size r.source ≤ r.limits.maxInputSize ↔ utf8Size source' ≤ r.limits.maxInputSize) :
    SameOutcome (Stmt.shapeAll Literal.untold) (r.statements declared)
        ((r.relaid source').statements declared) ∧
      ((∀ w ∈ ws, w.lexeme.is Mark.hash = false) →
        SameOutcome (Stmt.shapeAll id) (r.statements declared)
          ((r.relaid source').statements declared)) ∧
      ∀ ss ss', r.statements declared = .ok ss → (r.relaid source').statements declared = .ok ss' →
        ((∀ w ∈ ws, w.lexeme.is Mark.hash = false) ∨ Stmt.shapeAll id ss = Stmt.shapeAll id ss') →
        ∀ c place place',
          ((Smell.ofBody c place ss).filter Diagnostic.isDuplicate).map Diagnostic.unplaced =
            ((Smell.ofBody c place' ss').filter Diagnostic.isDuplicate).map Diagnostic.unplaced := by
  obtain ⟨ts, cut, rfl⟩ := tokens_of_words? h
  obtain ⟨ts', cut', words⟩ := tokens_of_words? h'
  have plain := regionless flavour cut
  have all (view : Literal → Literal) : Stmt.shapeAll view = List.map (Stmt.shape view) :=
    funext (Stmt.shapeAll_eq view)
  -- Two views of the same two readings: literals left untold, or no mark that a type needs.
  have untold : SameOutcome (Stmt.shapeAll Literal.untold) (r.statements declared)
      ((r.relaid source').statements declared) := by
    rw [all]
    refine statements_words Literal.untold (· == Keyword.REGION) rfl (.inr fun _ _ _ _ => rfl) cut
      cut' words.symm size (fun t ht k hk => ?_) declared
    rw [beq_iff_eq.1 hk]
    exact plain t ht
  have told (unmarked : ∀ w ∈ ts.map Token.word, w.lexeme.is Mark.hash = false) :
      SameOutcome (Stmt.shapeAll id) (r.statements declared)
        ((r.relaid source').statements declared) := by
    rw [all]
    refine statements_words id (fun k => k == Keyword.REGION || k == Mark.hash) rfl (.inl rfl) cut
      cut' words.symm size (fun t ht k hk => ?_) declared
    obtain region | hash := Bool.or_eq_true_iff.1 hk
    · rw [beq_iff_eq.1 region]
      exact plain t ht
    · rw [beq_iff_eq.1 hash]
      exact unmarked t.word (List.mem_map_of_mem ht)
  -- Whether no type is written or these literals come out alike, the full shapes are the same.
  refine ⟨untold, told, fun ss ss' read read' alike c place place' => ?_⟩
  refine Smell.duplicates_of_shape c ?_ place place'
  obtain unmarked | same := alike
  · have same := told unmarked
    rw [read, read'] at same
    cases same with
    | ok same => exact same
  · exact same

/-- A loop on one line. -/
def closeText : Reading :=
  { source := "WHILE a DO b:=1;END_WHILE".toList, dialect := .rockwell, limits := .strict }

/-- The same loop over two lines, with a comment. -/
def looseSource : List Char := "WHILE a DO (* up *)\n  b := 1; END_WHILE".toList

/-- The words of the loop. -/
def loopWords : List Word := [
  .keyword .WHILE, .name "a", .keyword .DO, .name "b", .mark .assign, ⟨.integer 1, "1"⟩,
  .mark .semicolon, .keyword .END_WHILE, ⟨.finish, ""⟩]

theorem statements_layout_loop :
    words? closeText.dialect closeText.source = some loopWords ∧
      words? closeText.dialect looseSource = some loopWords ∧
      (closeText.statements []).toOption.isSome = true ∧
      SameOutcome (Stmt.shapeAll id) (closeText.statements [])
        ((closeText.relaid looseSource).statements []) := by
  have close : words? closeText.dialect closeText.source = some loopWords := rfl
  have loose : words? closeText.dialect looseSource = some loopWords := rfl
  have size : utf8Size closeText.source ≤ closeText.limits.maxInputSize ↔
      utf8Size looseSource ≤ closeText.limits.maxInputSize := by decide
  have unmarked : ∀ w ∈ loopWords, w.lexeme.is Mark.hash = false := by decide
  exact ⟨close, loose, by decide +kernel,
    (statements_layout closeText looseSource [] (.inr rfl) close loose size).2.1 unmarked⟩

/-! ### What of the layout is seen -/

/-- Five characters, where no more are allowed. -/
def fullText : Reading := { source := "a:=1;".toList, limits := { maxInputSize := 5 } }

/-- The same with blanks. -/
def wideSource : List Char := "a := 1;".toList

/-- The words of both. -/
def assignmentWords : List Word :=
  [.name "a", .mark .assign, ⟨.integer 1, "1"⟩, .mark .semicolon, ⟨.finish, ""⟩]

/-- A statement that is written twice, with a type in front of its value. -/
def typedText : Reading := { source := "x := INT#5; x := INT#5;".toList }

/-- The same with blanks inside the second value. -/
def gappedSource : List Char := "x := INT#5; x := INT # 5;".toList

/-- The words of one statement of either. -/
def typedWords : List Word :=
  [.name "x", .mark .assign, .name "INT", .mark .hash, ⟨.integer 5, "5"⟩, .mark .semicolon]

/-- The number of duplicates in a list of statements. -/
def duplicates (ss : List Stmt) : Nat :=
  ((Smell.ofBody {} none ss).filter Diagnostic.isDuplicate).length

/-- Layout is seen where blanks make a text too long, and inside a literal with its type in front.
The same words are read in one text and refused in the other; or they are read as other statements,
and these are no duplicates any more. -/
theorem layout_seen :
    (words? .generic fullText.source = some assignmentWords ∧
      words? .generic wideSource = some assignmentWords ∧
      ¬ SameOutcome (Stmt.shapeAll id) (fullText.statements [])
        ((fullText.relaid wideSource).statements [])) ∧
    words? .generic typedText.source = some (typedWords ++ typedWords ++ [⟨.finish, ""⟩]) ∧
      words? .generic gappedSource = some (typedWords ++ typedWords ++ [⟨.finish, ""⟩]) ∧
      ¬ SameOutcome (Stmt.shapeAll id) (typedText.statements [])
        ((typedText.relaid gappedSource).statements []) ∧
      (typedText.statements []).toOption.map duplicates = some 1 ∧
      ((typedText.relaid gappedSource).statements []).toOption.map duplicates = some 0 := by
  have read : (fullText.statements []).toOption.isSome = true ∧
      ((fullText.relaid wideSource).statements []).toOption.isSome = false := by decide +kernel
  have twice : (typedText.statements []).toOption.map duplicates = some 1 := by decide +kernel
  have once : ((typedText.relaid gappedSource).statements []).toOption.map duplicates = some 0 := by
    decide +kernel
  refine ⟨⟨rfl, rfl, fun same => ?_⟩, rfl, rfl, fun same => ?_, twice, once⟩
  · -- One reading has a result and the other has none.
    generalize fullText.statements [] = full at read same
    generalize (fullText.relaid wideSource).statements [] = wide at read same
    cases same with
    | ok => exact absurd read.2 nofun
    | error => exact absurd read.1 nofun
  · -- Statements of one shape would have equally many duplicates.
    generalize typedText.statements [] = typed at twice same
    generalize (typedText.relaid gappedSource).statements [] = gapped at once same
    cases same with
    | ok same =>
      have alike := congrArg List.length (Smell.duplicates_of_shape {} same none none)
      rw [List.length_map, List.length_map] at alike
      have differ : 1 = 0 := (Option.some.inj twice).symm.trans (alike.trans (Option.some.inj once))
      cases differ
    | error => cases twice

end Reading

end Plc

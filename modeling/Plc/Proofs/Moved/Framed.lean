/-
Statements on lines of their own, between other lines.

A text that leaves nothing open may stand in front of a line feed, and what comes behind is cut into its
own tokens.  So the tokens of some statements are found again between the lines around them, further on,
and the statements are read there as they are alone, up to the word that closes them.

* `framedText` — the lines in front, the statements, and the word that closes them;
* `delivers_framed` — its tokens;
* `framedBody_follows` — the statements are read between the lines as they are alone.
-/
import Plc.Proofs.Moved.Whole

namespace Plc

open Grammar Scanner

/-- Statements between the lines in front of them and the word that closes them. -/
def framedText (head body : List Char) (close : Keyword) : List Char :=
  head ++ '\n' :: (body ++ '\n' :: close.spelling.toList)

/-- The word that closes the statements, where it stands. -/
def closingToken (head body : List Char) (close : Keyword) : Token :=
  (Word.keyword close).token (head.length + 1 + body.length + 1)

theorem Grammar.endsStatements_of_endWord {k : Keyword} (h : k ∈ endWords) :
    endsStatements (.keyword k) = true := by
  have among : (Lexeme.keyword k).isAmong endWords = true := List.contains_iff_mem.2 h
  rw [endsStatements, among, Bool.or_true]
  rfl

variable {head body : List Char} {close : Keyword} {d : Dialect}

/-- The tokens of the text are those of the lines in front, those of the statements further on, and the
word that closes them. -/
theorem delivers_framed (known : d.reserves close = true) {us ts : List Token}
    (first : Delivers d ⟨0, head⟩ us) (closedFirst : ∀ t ∈ us, Lexed.isOpen t.lexeme = false)
    (inner : Delivers d ⟨0, body⟩ ts) (closed : ∀ t ∈ ts, Lexed.isOpen t.lexeme = false) :
    Delivers d ⟨0, framedText head body close⟩
      (us ++ (ts.map (Token.moved (head.length + 1)) ++ [closingToken head body close])) := by
  have moved : Delivers d ⟨head.length + 1, body⟩ (ts.map (Token.moved (head.length + 1))) := by
    have moved := inner.moved (head.length + 1)
    rwa [Scanner.moved, Nat.zero_add] at moved
  have closedMoved : ∀ t ∈ ts.map (Token.moved (head.length + 1)), Lexed.isOpen t.lexeme = false := by
    intro t ht
    obtain ⟨u, hu, rfl⟩ := List.mem_map.1 ht
    exact closed u hu
  have last : Delivers d ⟨head.length + 1 + body.length + 1, close.spelling.toList⟩
      [closingToken head body close] := by
    have stands : (Word.keyword close).Stands d [] := Word.stands_keyword known .nil
    have next := stands.next (head.length + 1 + body.length + 1)
    rw [List.append_nil] at next
    exact .cons next rfl (.nil rfl rfl)
  refine first.feed closedFirst ?_
  rw [behind, Nat.zero_add]
  exact moved.feed closedMoved last

/-- The statements stand between the lines as they do alone, further on. -/
theorem common_framed (head body : List Char) (close : Keyword) :
    Common body (framedText head body close) (head.length + 1) 0 body.length := by
  have further : (head ++ ['\n']).length = ([] : List Char).length + (head.length + 1) := by simp
  have text : head ++ ['\n'] ++ body ++ '\n' :: close.spelling.toList = framedText head body close := by
    rw [List.append_assoc, List.append_assoc]
    rfl
  have part := common_part body further .nil (.lineFeed close.spelling.toList)
  rwa [text, List.nil_append, List.append_nil, List.length_nil, Nat.zero_add] at part

/-- Both texts: the statements alone, and between the lines. -/
def besideFramed (d : Dialect) (head body : List Char) (close : Keyword) (l l' : Limits) (fin fin' : Token)
    (ends : fin.lexeme.isFinish = true) : Transplant :=
  .between ⟨body, d, l⟩ ⟨framedText head body close, d, l'⟩ fin fin' [] [closingToken head body close]
    (common_framed head body close) rfl ends ⟨finish_bare ends, rfl⟩

/-- What is left of the statements is read between the lines as it is alone. -/
theorem framedBody_follows (listed : close ∈ endWords) {names : List String} {l l' : Limits}
    {fin fin' : Token} {us : List Token} {ss : List Stmt} {c c' m : Cursor} {levels n size : Nat}
    (ends : fin.lexeme.isFinish = true)
    (run : many (moreStatements (pure false)) (oneMore (statement levels)) n size
      (strictSetting ⟨body, d, l⟩ fin) c = .ok ss m)
    (rest : c.rest = us) (declared : c.declared = [names]) (done : m.rest = [])
    (within : ∀ t ∈ us, t.span.stop ≤ body.length)
    (closing : ∀ t ∈ us.getLast?, closesStatement t.lexeme = true)
    (rest' : c'.rest = us.map (Token.moved (head.length + 1)) ++ [closingToken head body close])
    (declared' : c'.declared = [names]) (levels' : Nat) :
    UnlessLimited (fun ss' m' => ss' = ss.map (Stmt.moved (head.length + 1)) ∧
        m'.rest = [closingToken head body close])
      (statementList (statement levels') (strictSetting ⟨framedText head body close, d, l'⟩ fin') c') := by
  let x := besideFramed d head body close l l' fin fin' ends
  have side : Beside x true c c' := by
    refine ⟨⟨us, ?_, rest', fun t ht => ⟨Nat.zero_le _, within t ht⟩, closing⟩, fun name => ?_, nofun⟩
    · exact rest.trans (List.append_nil _).symm
    · rw [declared, declared']
  refine (laterStatements_follow (x := x) pure_neverStops (fun _ _ _ _ _ => rfl) (fun c rest => .inl ?_)
    (fun c rest => .inl ?_) side run (Nat.zero_le _)).mono ?_
  · rw [Setting.ahead, rest]
    exact endsStatements_of_finish ends
  · rw [Setting.ahead, rest]
    exact endsStatements_of_endWord listed
  · rintro ss' m' ⟨rfl, ⟨vs, before, after, -⟩, -, -⟩
    -- The body is read to its end, so no token of it is left before the closing word.
    obtain rfl : vs = [] := by
      rw [done] at before
      exact (List.append_eq_nil_iff.1 before.symm).1
    exact ⟨rfl, after⟩

end Plc

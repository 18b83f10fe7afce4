/-
Variables that are reported unused.

A declared variable is reported unused when no code mentions it.  In a text of statements that can
be read, no token then stands for the variable, with these exceptions: the tree keeps the counter of
a loop and the front of a dotted callee as bare text, and a function gives its result through its own
name; and where there are labels, one may be spelled like the variable.

* `Reading.statements_names` — a name among the tokens of statements is a name in their tree;
* `CrossReference.unusedTags_spec` — where the name of an unused variable may still stand.
-/
import Plc.Model.CrossReference
import Plc.Proofs.Fallible
import Plc.Proofs.Mention.Stmt
import Plc.Proofs.Token.Tiling

namespace Plc

open Grammar

/-- What follows a token does not matter after the end of a text. -/
theorem StandsAsVariable.of_concat {declared : List String} {before after : List Token}
    {t fin : Token} (h : StandsAsVariable declared before t (after ++ [fin])) :
    StandsAsVariable declared before t after := by
  cases after with
  | nil => exact ⟨h.name, h.member, h.typed, rfl, fun _ => rfl, nofun⟩
  | cons u after => exact ⟨h.name, h.member, h.typed, h.type, h.argument, h.callee⟩

theorem liftPragmas_eq_filter (index : Nat) (pending ts : List Token) :
    (liftPragmas index pending ts).1 = ts.filter fun t => !t.isPragma := by
  induction ts generalizing index pending with
  | nil => rfl
  | cons t ts ih =>
    unfold liftPragmas
    split
    · next text known =>
      rw [ih, List.filter_cons_of_neg]
      simp [Token.isPragma, known]
    · next other =>
      have kept : (!t.isPragma) = true := by
        rw [Bool.not_eq_true', Token.isPragma]
        split
        · next text known => exact absurd known (other text)
        · rfl
      have later := ih (index + 1) []
      rw [List.filter_cons, if_pos kept, ← later]

/-- In a text that is read as statements, each name that stands for a variable is one in the tree,
whichever names count as declared. -/
theorem Reading.statements_names {r : Reading} {declared : List String} {ss : List Stmt}
    (plain : r.dialect.blocks = false → r.dialect.pragmas = false) (h : r.statements declared = .ok ss)
    {before after : List Token} {t : Token}
    (code : statementTokens r.dialect r.source = .ok (before ++ t :: after)) {D : List String}
    (stands : StandsAsVariable D before.reverse t after) : t.text ∈ Stmt.namesAll r.dialect D ss := by
  obtain ⟨errors, hrun⟩ := strictly_eq_ok_iff.1 h
  obtain ⟨all, c, within, run, -⟩ := run_eq_ok_iff.1 hrun
  have cut : tokens r.dialect r.source = .ok all := tokens_of_tokensWithin within
  obtain ⟨ts, rfl, inside, -⟩ := tokens_row cut
  rw [List.getLastD_concat] at run
  let x : Script := {
    setting := ⟨r.source, r.dialect, r.limits, false, Scanner.finish r.source.length⟩
    raw := ts
    cut := cut
    strict := rfl }
  have rest : (Cursor.before (ts ++ [Scanner.finish r.source.length])).rest =
      ts.filter fun t => !t.isPragma := by
    show (liftPragmas 0 [] (ts ++ [Scanner.finish r.source.length]).dropLast).1 = _
    rw [List.dropLast_concat, liftPragmas_eq_filter]
  have start : Told x D [] [] Any x.setting (.before (ts ++ [Scanner.finish r.source.length])) := by
    refine ⟨[], ⟨rfl, ?_, ?_, trivial⟩, rfl, fun _ _ _ _ less => absurd less (Nat.not_lt_zero _), trivial⟩
    · rw [rest]
      rfl
    · rw [rest]
      exact List.filter_sublist.subset
  have names := allStatements_told r.limits.maxDepth declared start run
  -- the end of the text belongs to the code, and stands for no variable
  have same : x.all ++ [Scanner.finish r.source.length] = before ++ t :: after := by
    have all := Except.ok.inj ((statementTokens_eq plain cut).symm.trans code)
    rw [← all, codeTokens, List.filter_append]
    refine (withoutTitles_finish (fun u hu => ?_) (Nat.zero_le _)).symm
    exact (inside u (List.mem_of_mem_filter hu)).2
  obtain ⟨after, rfl⟩ : ∃ rest, after = rest ++ [Scanner.finish r.source.length] := by
    obtain rfl | ⟨rest, last, rfl⟩ := List.eq_nil_or_concat after
    · have ends : Scanner.finish r.source.length = t :=
        (List.append_inj' same rfl).2 |> List.singleton_inj.1
      have name := stands.name
      rw [← ends] at name
      cases name
    · rw [List.concat_eq_append, ← List.cons_append, ← List.append_assoc] at same
      exact ⟨rest, by rw [List.concat_eq_append, (List.append_inj' same rfl).2]⟩
  rw [← List.cons_append, ← List.append_assoc] at same
  have parts : x.all = before ++ t :: after := (List.append_inj' same rfl).1
  exact names before t after parts (by simp [parts]) stands.of_concat

namespace Model

mutual

/-- The texts of statements in a body, those of the actions of a chart included. -/
def Body.texts : Body → List String
  | .structuredText text => [text]
  | .chart steps _ => Step.textsAll steps
  | _ => []

/-- The texts of statements in some steps. -/
def Step.textsAll : List Step → List String
  | [] => []
  | .mk _ _ actions :: steps => Action.textsAll actions ++ Step.textsAll steps

/-- The texts of statements in some actions. -/
def Action.textsAll : List Action → List String
  | [] => []
  | .mk _ _ (some body) :: actions => body.texts ++ Action.textsAll actions
  | .mk _ _ none :: actions => Action.textsAll actions

end

/-- The texts of statements in an organization unit. -/
def Pou.texts (p : Pou) : List String :=
  p.body.toList.flatMap Body.texts

/-- The statements that a text of an organization unit is read as. -/
def Surroundings.statements (s : Surroundings) (text : String) : Except Fault (List Stmt) :=
  { source := text.toList, dialect := s.dialect : Reading }.statements s.vars

mutual

/-- What a text in a body mentions is mentioned by the body. -/
theorem Body.mentions_text {s : Surroundings} {text : String} {ms : List Mention} : ∀ {b : Body},
    b.mentions s = .ok ms → text ∈ b.texts → ∃ own, Mention.ofText s text = .ok own ∧ own ⊆ ms
  | .structuredText text', h, ht => by
    obtain rfl := List.mem_singleton.1 ht
    exact ⟨ms, h, List.Subset.refl _⟩
  | .chart steps transitions, h, ht => by
    obtain ⟨inSteps, hs, h⟩ := bind_eq_ok h
    obtain ⟨inConditions, -, h⟩ := bind_eq_ok h
    cases h
    obtain ⟨own, said, sub⟩ := Step.mentions_text hs ht
    exact ⟨own, said, List.subset_append_of_subset_left _ sub⟩
  | .instructionList _, _, ht | .ladder _, _, ht | .blockDiagram _, _, ht | .other _ _, _, ht =>
    nomatch ht

theorem Step.mentions_text {s : Surroundings} {text : String} {ms : List Mention} :
    ∀ {steps : List Step}, Step.mentionsAll s steps = .ok ms → text ∈ Step.textsAll steps →
      ∃ own, Mention.ofText s text = .ok own ∧ own ⊆ ms
  | .mk _ _ actions :: steps, h, ht => by
    obtain ⟨here, hhere, h⟩ := bind_eq_ok h
    obtain ⟨later, hlater, h⟩ := bind_eq_ok h
    cases h
    obtain ht | ht := List.mem_append.1 ht
    · obtain ⟨own, said, sub⟩ := Action.mentions_text hhere ht
      exact ⟨own, said, List.subset_append_of_subset_left _ sub⟩
    · obtain ⟨own, said, sub⟩ := Step.mentions_text hlater ht
      exact ⟨own, said, List.subset_append_of_subset_right _ sub⟩

theorem Action.mentions_text {s : Surroundings} {text : String} {ms : List Mention} :
    ∀ {actions : List Action}, Action.mentionsAll s actions = .ok ms →
      text ∈ Action.textsAll actions → ∃ own, Mention.ofText s text = .ok own ∧ own ⊆ ms
  | .mk _ _ (some body) :: actions, h, ht => by
    obtain ⟨here, hhere, h⟩ := bind_eq_ok h
    obtain ⟨later, hlater, h⟩ := bind_eq_ok h
    cases h
    obtain ht | ht := List.mem_append.1 ht
    · obtain ⟨own, said, sub⟩ := Body.mentions_text hhere ht
      exact ⟨own, said, List.subset_append_of_subset_left _ sub⟩
    · obtain ⟨own, said, sub⟩ := Action.mentions_text hlater ht
      exact ⟨own, said, List.subset_append_of_subset_right _ sub⟩
  | .mk _ _ none :: actions, h, ht => by
    unfold Action.mentionsAll at h
    exact Action.mentions_text h ht

end

namespace CrossReference

/-- What a text of a project mentions is among all that the project mentions. -/
theorem mentions_text {p : Project} {x : CrossReference} (built : ofProject p = .ok x) {u : Pou}
    (hu : u ∈ p.pous) {text : String} (ht : text ∈ u.texts) :
    ∃ own, Mention.ofText (u.surroundings (dialectOf p.format)) text = .ok own ∧ own ⊆ x.mentions := by
  obtain ⟨found, run, h⟩ := bind_eq_ok built
  cases h
  obtain ⟨earlier, later, parts⟩ := List.append_of_mem hu
  rw [parts] at run
  obtain ⟨before, mine, after, rfl, -, own, -⟩ := mapM_between run
  obtain ⟨body, hbody, ht⟩ := List.mem_flatMap.1 ht
  rw [Option.mem_toList] at hbody
  rw [Pou.mentions, hbody] at own
  obtain ⟨said, inText, sub⟩ := Body.mentions_text own ht
  exact ⟨said, inText, fun m hm => List.mem_flatten.2 ⟨mine, by simp, sub hm⟩⟩

/-- The dialects of projects; only one of them has blocks, and only that one annotations. -/
theorem dialectOf_cases (format : Option String) :
    dialectOf format = .generic ∨ dialectOf format = .scl ∨ dialectOf format = .rockwell := by
  unfold dialectOf
  split
  · exact .inr (.inl rfl)
  · exact .inr (.inr rfl)
  · exact .inr (.inr rfl)
  · exact .inl rfl

/-- In a text of statements that can be read, a token that stands for a variable reported unused
names the result of the text's function, counts a loop, is in front of a dotted callee, or, in a
dialect with labels, is written like one of the text's labels.  The tokens are those that the
statements are read from. -/
theorem unusedTags_spec {p : Project} {x : CrossReference} (built : ofProject p = .ok x) {u : Pou}
    (hu : u ∈ p.pous) {text : String} (ht : text ∈ u.texts) {ss : List Stmt}
    (read : (u.surroundings (dialectOf p.format)).statements text = .ok ss)
    {before after : List Token} {t : Token}
    (cut : statementTokens (dialectOf p.format) text.toList = .ok (before ++ t :: after))
    (stands : StandsAsVariable (u.vars.map Variable.name) before.reverse t after)
    (unused : t.text ∈ x.unusedTags) :
    (u.surroundings (dialectOf p.format)).result = some t.text ∨ t.text ∈ Stmt.controls ss ∨
      (∃ callee ∈ Stmt.callees ss, '.' ∈ callee.toList ∧ pathFront callee = t.text) ∨
      dialectOf p.format = .scl ∧ t.text ∈ Stmt.labels ss := by
  have plain : (dialectOf p.format).blocks = false → (dialectOf p.format).pragmas = false := by
    obtain same | same | same := dialectOf_cases p.format <;> rw [same] <;> exact id
  have named := Reading.statements_names plain read cut stands
  obtain ⟨r, said, tag⟩ | result | control | front | ⟨blocks, label⟩ :=
    Stmt.mention_of_names (s := u.surroundings _) named
  -- A mention of the name makes it a used tag, against the assumption.
  · obtain ⟨own, inText, sub⟩ := mentions_text built hu ht
    unfold Mention.ofText at inText
    unfold Surroundings.statements at read
    rw [read] at inText
    cases inText
    have used : t.text ∈ x.usedTags :=
      List.mem_map.2 ⟨r, List.mem_filterMap.2 ⟨_, sub said, rfl⟩, tag⟩
    exact absurd used (mem_unusedTags_iff.1 unused).2
  · exact .inl result
  · exact .inr (.inl control)
  · exact .inr (.inr (.inl front))
  -- Labels are only told in the dialect with blocks.
  · obtain same | same | same := dialectOf_cases p.format
    · rw [same] at blocks
      cases blocks
    · exact .inr (.inr (.inr ⟨same, label⟩))
    · rw [same] at blocks
      cases blocks

/-- A loop without statements. -/
def loopText : String :=
  "FOR i := 1 TO 2 DO END_FOR;"

/-- A program that is the loop, and whose only variable counts it. -/
def loopProject : Project where
  name := "P"
  pous := [{
    name := "Main"
    kind := .program
    interface := { locals := [{ name := "i", type := "INT" }] }
    body := some (.structuredText loopText) }]

/-- The text is that of the program. -/
def loopProgram : Surroundings where
  pou := "Main"
  vars := ["i"]

/-- The variable that stands after `FOR` is reported unused. -/
theorem loopProject_unused : ∃ x ss before t after, ofProject loopProject = .ok x ∧
    loopProgram.statements loopText = .ok ss ∧
      tokens .generic loopText.toList = .ok (before ++ t :: after) ∧
        StandsAsVariable ["i"] before.reverse t after ∧ t.text ∈ x.unusedTags := by
  have reported : (ofProject loopProject).toOption.any (·.unusedTags.contains "i") = true := by
    decide +kernel
  have accepted : (loopProgram.statements loopText).toOption.any (fun _ => true) = true := by
    decide +kernel
  have stands : (tokens .generic loopText.toList).toOption.any (fun ts => ts.tail.head?.any fun t =>
      t.text == "i" && decide (StandsAsVariable ["i"] (ts.take 1) t (ts.drop 2))) = true := by
    decide +kernel
  obtain ⟨x, hx, unused⟩ := ok_of_any reported
  obtain ⟨ss, hss, -⟩ := ok_of_any accepted
  obtain ⟨ts, hts, found⟩ := ok_of_any stands
  -- the variable is the second token
  obtain - | ⟨first, - | ⟨t, rest⟩⟩ := ts
  · cases found
  · cases found
  · rw [List.tail_cons, List.head?_cons, Option.any_some, Bool.and_eq_true, beq_iff_eq,
      decide_eq_true_iff] at found
    refine ⟨x, ss, [first], t, rest, hx, hss, hts, found.2, ?_⟩
    rw [found.1]
    exact List.contains_iff_mem.1 unused

/-- It counts a loop, as no other place is left for it. -/
theorem unusedTags_spec_loop : ∃ x ss before t after, ofProject loopProject = .ok x ∧
    loopProgram.statements loopText = .ok ss ∧
      statementTokens .generic loopText.toList = .ok (before ++ t :: after) ∧
        StandsAsVariable ["i"] before.reverse t after ∧ t.text ∈ x.unusedTags ∧
          (loopProgram.result = some t.text ∨ t.text ∈ Stmt.controls ss ∨
            (∃ callee ∈ Stmt.callees ss, '.' ∈ callee.toList ∧ pathFront callee = t.text) ∨
            dialectOf loopProject.format = .scl ∧ t.text ∈ Stmt.labels ss) := by
  obtain ⟨x, ss, before, t, after, hx, hss, hts, stands, unused⟩ := loopProject_unused
  have code : statementTokens .generic loopText.toList = .ok (before ++ t :: after) := by
    unfold statementTokens
    rw [hts]
    rfl
  exact ⟨x, ss, before, t, after, hx, hss, code, stands, unused,
    unusedTags_spec hx List.mem_cons_self List.mem_cons_self hss code stands unused⟩

/-- A variable reported unused may be named in a text that can be read. -/
theorem unusedTags_named : ¬ ∀ (p : Project) (x : CrossReference), ofProject p = .ok x →
    (∀ u ∈ p.pous, ∀ text ∈ u.texts,
      ∃ ss, (u.surroundings (dialectOf p.format)).statements text = .ok ss) →
    ∀ u ∈ p.pous, ∀ text ∈ u.texts, ∀ before t after,
      tokens (dialectOf p.format) text.toList = .ok (before ++ t :: after) →
      t.text ∈ x.unusedTags →
        ¬ StandsAsVariable (u.vars.map Variable.name) before.reverse t after := by
  intro every
  obtain ⟨x, ss, before, t, after, hx, hss, hts, stands, unused⟩ := loopProject_unused
  refine every loopProject x hx (fun u hu text ht => ?_) _ List.mem_cons_self loopText
    List.mem_cons_self before t after hts unused stands
  obtain rfl := List.mem_singleton.1 hu
  obtain rfl := List.mem_singleton.1 ht
  exact ⟨ss, hss⟩

end CrossReference

end Model

end Plc

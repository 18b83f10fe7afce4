/-
Words that constructs are counted by.

A node of a tree is written with words of its own: the reserved words of a construct, and `:=`.  The
words of a tree have each of them as often as its nodes do.

* `Node.blockWords` — the words of its own that a node is written with;
* `Stmt.count_yieldAll` — the words of statements, counted by nodes.
-/
import Mathlib.Algebra.GroupWithZero.Nat
import Plc.Proofs.Yield.Tree
import Plc.Tree.Node

namespace Plc

/-! ### The words of a construct -/

/-- The reserved word opens, parts or closes a construct. -/
def Keyword.isBlock : Keyword → Bool
  | .IF | .THEN | .ELSIF | .ELSE | .END_IF | .CASE | .OF | .END_CASE | .FOR | .TO | .BY | .DO
  | .END_FOR | .WHILE | .END_WHILE | .REPEAT | .UNTIL | .END_REPEAT => true
  | _ => false

/-- The word as one that constructs are counted by: a reserved word of a construct, or `:=`. -/
def Lexeme.block? : Lexeme → Option Terminal
  | .keyword k => if k.isBlock then some (.keyword k) else none
  | .mark .assign => some (.mark .assign)
  | _ => none

/-- The words that constructs are counted by. -/
def blockWords (ws : List Word) : List Terminal :=
  ws.filterMap (·.lexeme.block?)

/-- The words that the node itself is written with, those of the nodes below it aside. -/
def Node.blockWords : Node → List Terminal
  | .stmt (.assignment _ _ .assign _) => [.mark .assign]
  | .stmt (.ifThen _ _ elsifs otherwise) =>
    [.keyword .IF, .keyword .END_IF] ++ elsifs.map (fun _ => .keyword .ELSIF) ++
      otherwise.toList.map fun _ => .keyword .ELSE
  | .ifBranch _ => [.keyword .THEN]
  | .stmt (.caseOf _ _ _ otherwise) =>
    [.keyword .CASE, .keyword .OF, .keyword .END_CASE] ++
      otherwise.toList.map fun _ => .keyword .ELSE
  | .stmt (.forLoop _ _ _ _ step _) =>
    [.keyword .FOR, .mark .assign, .keyword .TO, .keyword .DO, .keyword .END_FOR] ++
      step.toList.map fun _ => .keyword .BY
  | .stmt (.whileLoop _ _ _) => [.keyword .WHILE, .keyword .DO, .keyword .END_WHILE]
  | .stmt (.repeatLoop _ _ _) => [.keyword .REPEAT, .keyword .UNTIL, .keyword .END_REPEAT]
  | .arg (.named _ _ _) => [.mark .assign]
  | _ => []

/-- The words that some nodes are written with. -/
def Node.blockWordsAll (ns : List Node) : List Terminal :=
  ns.flatMap Node.blockWords

@[simp] theorem blockWords_nil : blockWords [] = [] := rfl

@[simp] theorem blockWords_append (ws vs : List Word) :
    blockWords (ws ++ vs) = blockWords ws ++ blockWords vs :=
  List.filterMap_append

@[simp] theorem blockWords_cons (w : Word) (ws : List Word) :
    blockWords (w :: ws) = w.lexeme.block?.toList ++ blockWords ws := by
  rw [blockWords, List.filterMap_cons]
  cases w.lexeme.block? <;> rfl

@[simp] theorem Node.blockWordsAll_nil : blockWordsAll [] = [] := rfl

@[simp] theorem Node.blockWordsAll_cons (n : Node) (ns : List Node) :
    blockWordsAll (n :: ns) = n.blockWords ++ blockWordsAll ns := by
  rw [blockWordsAll, List.flatMap_cons]
  rfl

@[simp] theorem Node.blockWordsAll_append (ns ms : List Node) :
    blockWordsAll (ns ++ ms) = blockWordsAll ns ++ blockWordsAll ms :=
  List.flatMap_append

@[simp] theorem blockWords_parens (ws : List Word) : blockWords (parenWords ws) = blockWords ws := by
  simp [parenWords, Word.mark, Lexeme.block?]

theorem blockWords_commas (wss : List (List Word)) :
    blockWords (commaWords wss) = blockWords wss.flatten := by
  cases wss with
  | nil => rfl
  | cons ws wss =>
    induction wss with
    | nil => simp [commaWords]
    | cons vs vss ih => simp_all [commaWords, Word.mark, Lexeme.block?]

/-! ### Expressions -/

section

variable {leaf : String → List Word}

theorem blockWords_dotted (operand : ∀ text, blockWords (leaf text) = []) (ns : List String) :
    blockWords (dottedYield leaf ns) = [] := by
  cases ns with
  | nil => rfl
  | cons n ns =>
    induction ns with
    | nil => rfl
    | cons m ms ih => simp_all [dottedYield, Word.mark, Word.name, Lexeme.block?]

mutual

theorem Variable.count_yield
    (operand : ∀ text, blockWords (leaf text) = []) (k : Terminal) : ∀ v : Variable,
    (blockWords (v.yield leaf)).count k = (Node.blockWordsAll v.nodes).count k
  | .named _ n style => by
    cases style <;> simp [Variable.yield, Variable.nodes, Node.blockWords, Word.name, Word.mark, Lexeme.block?]
  | .address _ text a => by simp [Variable.yield, Variable.nodes, Node.blockWords, operand]
  | .member _ b m => by
    simp [Variable.yield, Variable.nodes, Node.blockWords, operand, Word.mark, Lexeme.block?,
      Variable.count_yield operand k b]
  | .element _ b is => by
    simp [Variable.yield, Variable.nodes, Node.blockWords, Word.mark, Lexeme.block?, Variable.count_yield operand k b,
      blockWords_commas, Expr.count_yieldEach operand k is]
  | .deref _ b => by
    simp [Variable.yield, Variable.nodes, Node.blockWords, Word.mark, Lexeme.block?, Variable.count_yield operand k b]

theorem Expr.count_yield
    (operand : ∀ text, blockWords (leaf text) = []) (k : Terminal) : ∀ e : Expr,
    (blockWords (e.yield leaf)).count k = (Node.blockWordsAll e.nodes).count k
  | .literal _ l => by simp [Expr.yield, Expr.nodes, Node.blockWords, operand]
  | .variable v => by simp [Expr.yield, Expr.nodes, Variable.count_yield operand k v]
  | .unary _ .not x => by
    simp [Expr.yield, Expr.nodes, Node.blockWords, Word.keyword, Lexeme.block?, Keyword.isBlock,
      Expr.count_yield operand k x]
  | .unary _ .neg x => by
    simp [Expr.yield, Expr.nodes, Node.blockWords, Word.mark, Lexeme.block?, Expr.count_yield operand k x]
  -- No operator opens or closes a block.
  | .binary _ op l r => by
    have other : op.word.lexeme.block? = none := by cases op <;> rfl
    simp [Expr.yield, Expr.nodes, Node.blockWords, other, Expr.count_yield operand k l, Expr.count_yield operand k r]
  | .paren _ x => by simp [Expr.yield, Expr.nodes, Node.blockWords, Expr.count_yield operand k x]
  | .call _ name args => by
    simp [Expr.yield, Expr.nodes, Node.blockWords, blockWords_dotted operand, blockWords_commas,
      Arg.count_yieldEach operand k args]
  | .repeated _ n (some x) => by
    simp [Expr.yield, Expr.nodes, Node.blockWords, operand, Expr.count_yield operand k x]
  | .repeated _ n none => by simp [Expr.yield, Expr.nodes, Node.blockWords, operand]
  | .arrayInit _ es => by
    simp [Expr.yield, Expr.nodes, Node.blockWords, Word.mark, Lexeme.block?, blockWords_commas,
      Expr.count_yieldEach operand k es]
  | .structInit _ fs => by
    simp [Expr.yield, Expr.nodes, Node.blockWords, blockWords_commas, Arg.count_yieldEach operand k fs]

theorem Arg.count_yield
    (operand : ∀ text, blockWords (leaf text) = []) (k : Terminal) : ∀ a : Arg,
    (blockWords (a.yield leaf)).count k = (Node.blockWordsAll a.nodes).count k
  | .positional _ x => by simp [Arg.yield, Arg.nodes, Node.blockWords, Expr.count_yield operand k x]
  | .named _ n x => by
    simp [Arg.yield, Arg.nodes, Node.blockWords, Word.name, Word.mark, Lexeme.block?,
      List.count_cons, Expr.count_yield operand k x]
  | .output _ n v negated => by
    cases negated <;> simp [Arg.yield, Arg.nodes, Node.blockWords, Word.name, Word.mark, Word.keyword,
      Lexeme.block?, Keyword.isBlock, Variable.count_yield operand k v]
  | .inferred _ => by simp [Arg.yield, Arg.nodes, Node.blockWords]

theorem Expr.count_yieldEach
    (operand : ∀ text, blockWords (leaf text) = []) (k : Terminal) : ∀ xs : List Expr,
    (blockWords (Expr.yieldEach leaf xs).flatten).count k =
      (Node.blockWordsAll (Expr.nodesAll xs)).count k
  | [] => rfl
  | x :: xs => by
    simp [Expr.yieldEach, Expr.nodesAll, Expr.count_yield operand k x, Expr.count_yieldEach operand k xs]

theorem Arg.count_yieldEach
    (operand : ∀ text, blockWords (leaf text) = []) (k : Terminal) : ∀ xs : List Arg,
    (blockWords (Arg.yieldEach leaf xs).flatten).count k =
      (Node.blockWordsAll (Arg.nodesAll xs)).count k
  | [] => rfl
  | x :: xs => by
    simp [Arg.yieldEach, Arg.nodesAll, Arg.count_yield operand k x, Arg.count_yieldEach operand k xs]

end

theorem CaseSelector.count_yield (operand : ∀ text, blockWords (leaf text) = []) (k : Terminal)
    (s : CaseSelector) :
    (blockWords (s.yield leaf)).count k = (Node.blockWordsAll s.nodes).count k := by
  cases s <;> simp [yield, nodes, Node.blockWords, Word.mark, Lexeme.block?,
    Expr.count_yield operand k]

theorem CaseSelector.count_yieldEach (operand : ∀ text, blockWords (leaf text) = []) (k : Terminal)
    (ss : List CaseSelector) :
    (blockWords (ss.map (CaseSelector.yield leaf)).flatten).count k =
      (Node.blockWordsAll (ss.flatMap CaseSelector.nodes)).count k := by
  induction ss with
  | nil => rfl
  | cons s ss ih =>
    rw [List.map_cons, List.flatten_cons, List.flatMap_cons, blockWords_append,
      Node.blockWordsAll_append, List.count_append, List.count_append, ih, count_yield operand]

/-! ### Statements -/

/-- The nodes of what stands after `ELSE`, if it comes. -/
def Stmt.elseNodes : Option (List Stmt) → List Node
  | some ss => Stmt.nodesAll ss
  | none => []

theorem Stmt.nodes_ifThen (s bs : Span) (condition : Expr) (body : List Stmt)
    (elsifs : List IfBranch) (otherwise : Option (List Stmt)) :
    (Stmt.ifThen s (.mk bs condition body) elsifs otherwise).nodes =
      .stmt (.ifThen s (.mk bs condition body) elsifs otherwise) ::
        .ifBranch (.mk bs condition body) ::
          (condition.nodes ++ Stmt.nodesAll body ++ IfBranch.nodesAll elsifs ++
            Stmt.elseNodes otherwise) := by
  cases otherwise <;> rfl

theorem Stmt.nodes_caseOf (s : Span) (selector : Expr) (branches : List CaseBranch)
    (otherwise : Option (List Stmt)) :
    (Stmt.caseOf s selector branches otherwise).nodes =
      .stmt (.caseOf s selector branches otherwise) ::
        (selector.nodes ++ CaseBranch.nodesAll branches ++ Stmt.elseNodes otherwise) := by
  cases otherwise <;> rfl

mutual

theorem Stmt.count_yield (operand : ∀ text, blockWords (leaf text) = []) (k : Terminal) :
    ∀ s : Stmt, (blockWords (s.yield leaf)).count k = (Node.blockWordsAll s.nodes).count k
  -- Both sides are sums with one summand for each part; `simp` brings them to this form, and
  -- `omega` reorders them.
  | .assignment _ target op value => by
    cases op <;> simp [Stmt.yield, Stmt.nodes, Node.blockWords, AssignOp.mark, Word.mark, Lexeme.block?,
      List.count_cons, Variable.count_yield operand k, Expr.count_yield operand k]
    omega
  | .ifThen _ (.mk _ condition body) elsifs otherwise => by
    simp [Stmt.yield, IfBranch.yield, Stmt.nodes_ifThen, Node.blockWords, Word.keyword, Lexeme.block?,
      Keyword.isBlock, List.count_cons, Expr.count_yield operand k, Stmt.count_yieldAll operand k body,
      IfBranch.count_yieldAll operand k elsifs, Stmt.count_elseYield operand k otherwise]
    omega
  | .caseOf _ selector branches otherwise => by
    simp [Stmt.yield, Stmt.nodes_caseOf, Node.blockWords, Word.keyword, Lexeme.block?,
      Keyword.isBlock, List.count_cons, Expr.count_yield operand k,
      CaseBranch.count_yieldAll operand k branches, Stmt.count_elseYield operand k otherwise]
    omega
  | .forLoop _ control start stop step body => by
    cases step <;> simp [Stmt.yield, Stmt.nodes, Node.blockWords, Word.keyword, Word.name, Word.mark,
      Lexeme.block?, Keyword.isBlock, List.count_cons, Expr.nodesOpt, Expr.count_yield operand k,
      Stmt.count_yieldAll operand k body]
    all_goals omega
  | .whileLoop _ condition body => by
    simp [Stmt.yield, Stmt.nodes, Node.blockWords, Word.keyword, Lexeme.block?, Keyword.isBlock,
      List.count_cons, Expr.count_yield operand k, Stmt.count_yieldAll operand k body]
    omega
  | .repeatLoop _ body condition => by
    simp [Stmt.yield, Stmt.nodes, Node.blockWords, Word.keyword, Lexeme.block?, Keyword.isBlock,
      List.count_cons, Expr.count_yield operand k, Stmt.count_yieldAll operand k body]
    omega
  | .exitLoop _ => rfl
  | .nextPass _ => rfl
  | .leave _ value => by
    cases value <;> simp [Stmt.yield, Stmt.nodes, Node.blockWords, Word.keyword, Word.mark,
      Lexeme.block?, Keyword.isBlock, Expr.nodesOpt, Expr.count_yield operand k]
  | .call _ callSpan name args => by
    simp [Stmt.yield, Stmt.nodes, Node.blockWords, Word.mark, Lexeme.block?,
      blockWords_dotted operand, blockWords_commas, Arg.count_yieldEach operand k]
  | .invoke _ callee args => by
    simp [Stmt.yield, Stmt.nodes, Node.blockWords, Word.mark, Lexeme.block?, blockWords_commas,
      Variable.count_yield operand k, Arg.count_yieldEach operand k]
  | .empty _ => rfl
  | .goto _ _ => rfl
  | .label _ _ => rfl
  | .region _ title body => by
    simp [Stmt.yield, Stmt.nodes, Node.blockWords, Word.keyword, Lexeme.block?, Keyword.isBlock,
      operand, Stmt.count_yieldAll operand k body]

/-- The words of statements have each word of a construct as often as their nodes. -/
theorem Stmt.count_yieldAll (operand : ∀ text, blockWords (leaf text) = []) (k : Terminal) :
    ∀ ss : List Stmt, (blockWords (Stmt.yieldAll leaf ss)).count k =
      (Node.blockWordsAll (Stmt.nodesAll ss)).count k
  | [] => rfl
  | s :: ss => by
    simp [Stmt.yieldAll, Stmt.nodesAll, Stmt.count_yield operand k s,
      Stmt.count_yieldAll operand k ss]

theorem IfBranch.count_yieldAll (operand : ∀ text, blockWords (leaf text) = []) (k : Terminal) :
    ∀ bs : List IfBranch, (blockWords (IfBranch.yieldAll leaf bs)).count k =
      (Node.blockWordsAll (IfBranch.nodesAll bs)).count k +
        (bs.map fun _ => Terminal.keyword .ELSIF).count k
  | [] => rfl
  | .mk _ condition body :: bs => by
    simp [IfBranch.yieldAll, IfBranch.yield, IfBranch.nodesAll, Node.blockWords, Word.keyword,
      Lexeme.block?, Keyword.isBlock, List.count_cons, Expr.count_yield operand k,
      Stmt.count_yieldAll operand k body, IfBranch.count_yieldAll operand k bs]
    omega

theorem CaseBranch.count_yieldAll (operand : ∀ text, blockWords (leaf text) = []) (k : Terminal) :
    ∀ bs : List CaseBranch, (blockWords (CaseBranch.yieldAll leaf bs)).count k =
      (Node.blockWordsAll (CaseBranch.nodesAll bs)).count k
  | [] => rfl
  | .mk _ selectors body :: bs => by
    simp [CaseBranch.yieldAll, CaseBranch.yield, CaseBranch.nodesAll, Node.blockWords, Word.mark,
      Lexeme.block?, blockWords_commas, CaseSelector.count_yieldEach operand k,
      Stmt.count_yieldAll operand k body, CaseBranch.count_yieldAll operand k bs]

theorem Stmt.count_elseYield (operand : ∀ text, blockWords (leaf text) = []) (k : Terminal) :
    ∀ o : Option (List Stmt), (blockWords (Stmt.elseYield leaf o)).count k =
      (Node.blockWordsAll (Stmt.elseNodes o)).count k +
        (o.toList.map fun _ => Terminal.keyword .ELSE).count k
  | none => rfl
  | some ss => by
    simp [Stmt.elseYield, Stmt.elseNodes, Word.keyword, Lexeme.block?, Keyword.isBlock,
      List.count_cons, Stmt.count_yieldAll operand k ss]

end

end

/-! ### Kinds of nodes -/

namespace Node

/-- The node is an `IF` statement. -/
@[simp] def isIf : Node → Bool
  | .stmt (.ifThen _ _ _ _) => true
  | _ => false

/-- The node is a branch of an `IF` statement, the first included. -/
@[simp] def isIfBranch : Node → Bool
  | .ifBranch _ => true
  | _ => false

/-- The node is a `CASE` statement. -/
@[simp] def isCase : Node → Bool
  | .stmt (.caseOf _ _ _ _) => true
  | _ => false

/-- The node is a `FOR` statement. -/
@[simp] def isFor : Node → Bool
  | .stmt (.forLoop _ _ _ _ _ _) => true
  | _ => false

/-- The node is a `FOR` statement with a step. -/
@[simp] def isStepped : Node → Bool
  | .stmt (.forLoop _ _ _ _ (some _) _) => true
  | _ => false

/-- The node is a `WHILE` statement. -/
@[simp] def isWhile : Node → Bool
  | .stmt (.whileLoop _ _ _) => true
  | _ => false

/-- The node is a `REPEAT` statement. -/
@[simp] def isRepeat : Node → Bool
  | .stmt (.repeatLoop _ _ _) => true
  | _ => false

/-- The node is an `IF` or `CASE` statement with `ELSE`. -/
@[simp] def hasElse : Node → Bool
  | .stmt (.ifThen _ _ _ (some _)) | .stmt (.caseOf _ _ _ (some _)) => true
  | _ => false

/-- The node is a plain assignment, a `FOR` statement or a named argument. -/
@[simp] def assigns : Node → Bool
  | .stmt (.assignment _ _ .assign _) | .stmt (.forLoop _ _ _ _ _ _) | .arg (.named _ _ _) => true
  | _ => false

/-- The number of `ELSIF` branches of the node. -/
def elsifs : Node → Nat
  | .stmt (.ifThen _ _ elsifs _) => elsifs.length
  | _ => 0

/-- Words that each node of a kind is written with once, and no other node. -/
def constructs : List (Terminal × (Node → Bool)) := [
  (.keyword .IF, isIf), (.keyword .END_IF, isIf), (.keyword .THEN, isIfBranch),
  (.keyword .CASE, isCase), (.keyword .OF, isCase), (.keyword .END_CASE, isCase),
  (.keyword .FOR, isFor), (.keyword .TO, isFor), (.keyword .END_FOR, isFor), (.keyword .BY, isStepped),
  (.keyword .WHILE, isWhile), (.keyword .END_WHILE, isWhile), (.keyword .DO, fun n => n.isFor || n.isWhile),
  (.keyword .REPEAT, isRepeat), (.keyword .UNTIL, isRepeat), (.keyword .END_REPEAT, isRepeat),
  (.keyword .ELSE, hasElse), (.mark .assign, assigns)]

theorem count_blockWords (n : Node) : ∀ e ∈ constructs, n.blockWords.count e.1 = (e.2 n).toNat := by
  refine List.forall_iff_forall_mem.1 ?_
  -- only the words of a conditional depend on a length; all others can be counted
  cases n with
  | stmt s =>
    cases s with
    | assignment _ _ op _ => cases op <;> repeat' constructor
    | ifThen _ _ elsifs otherwise =>
      cases otherwise <;> simp [constructs, blockWords, List.count_replicate]
    | caseOf _ _ _ otherwise => cases otherwise <;> repeat' constructor
    | forLoop _ _ _ _ step _ => cases step <;> repeat' constructor
    | _ => repeat' constructor
  | arg a => cases a <;> repeat' constructor
  | _ => repeat' constructor

theorem count_elsifs (n : Node) : n.blockWords.count (.keyword .ELSIF) = n.elsifs := by
  cases n with
  | stmt s =>
    cases s with
    | assignment _ _ op _ => cases op <;> rfl
    | ifThen _ _ elsifs otherwise => cases otherwise <;> simp [blockWords, Node.elsifs]
    | caseOf _ _ _ otherwise => cases otherwise <;> rfl
    | forLoop _ _ _ _ step _ => cases step <;> rfl
    | _ => rfl
  | arg a => cases a <;> rfl
  | _ => rfl

theorem count_blockWordsAll (k : Terminal) (ns : List Node) :
    (blockWordsAll ns).count k = (ns.map fun n => n.blockWords.count k).sum := by
  rw [blockWordsAll, List.count_flatMap]
  rfl

/-- A word that each node of a kind is written with once is counted by the nodes of the kind. -/
theorem count_constructs {k : Terminal} {p : Node → Bool} (h : (k, p) ∈ constructs)
    (ns : List Node) : (blockWordsAll ns).count k = ns.countP p := by
  rw [count_blockWordsAll]
  induction ns with
  | nil => rfl
  | cons n ns ih =>
    have own : n.blockWords.count k = (p n).toNat := count_blockWords n _ h
    rw [List.map_cons, List.sum_cons, ih, own, List.countP_cons, Nat.add_comm]
    cases p n <;> rfl

end Node

/-! ### Words of a text -/

/-- Constructs are counted by the word. -/
def Terminal.isBlock : Terminal → Bool
  | .keyword k => k.isBlock
  | .mark m => m == .assign

theorem Node.isBlock_of_constructs {k : Terminal} {p : Node → Bool} (h : (k, p) ∈ constructs) :
    k.isBlock = true := by
  have all : ∀ k' ∈ constructs.map Prod.fst, k'.isBlock = true := by decide
  exact all k (List.mem_map_of_mem h)

theorem Lexeme.block?_eq_some_iff {l : Lexeme} {k : Terminal} (block : k.isBlock = true) :
    l.block? = some k ↔ l.is k = true := by
  cases k with
  | keyword k =>
    cases l with
    | keyword k' =>
      have known : k.isBlock = true := block
      by_cases same : k' = k
      · subst same
        simp [block?, is, known]
      · simp [block?, is, same]
    | mark m => cases m <;> simp [block?, is]
    | _ => simp [block?, is]
  | mark m =>
    obtain rfl : m = .assign := by simpa [Terminal.isBlock] using block
    cases l with
    | keyword k' => simp [block?, is]
    | mark m' => cases m' <;> simp [block?, is]
    | _ => simp [block?, is]

theorem count_blockWords_eq {k : Terminal} (block : k.isBlock = true) (ws : List Word) :
    (blockWords ws).count k = ws.countP (·.lexeme.is k) := by
  induction ws with
  | nil => rfl
  | cons w ws ih =>
    rw [blockWords_cons, List.count_append, List.countP_cons, ih, Nat.add_comm]
    congr 1
    cases seen : w.lexeme.is k with
    | true => simp [(Lexeme.block?_eq_some_iff block).2 seen]
    | false =>
      have other : w.lexeme.block? ≠ some k := by
        rw [Ne, Lexeme.block?_eq_some_iff block, seen]
        exact Bool.false_ne_true
      rw [if_neg Bool.false_ne_true, List.count_eq_zero]
      simpa using other

theorem blockWords_withoutSigns (operand : Bool) (ws : List Word) :
    blockWords (withoutSigns operand ws) = blockWords ws := by
  induction ws generalizing operand with
  | nil => rfl
  | cons w ws ih =>
    rw [withoutSigns]
    split
    · next sign =>
      have none : w.lexeme.block? = none := by
        rw [Bool.and_eq_true] at sign
        cases hw : w.lexeme <;> simp [hw, Lexeme.is] at sign
        simp [Lexeme.block?, sign]
      simp [ih, none]
    · simp [ih]

theorem blockWords_withoutOptional (before : Option Word) (ws : List Word) :
    blockWords (withoutOptional before ws) = blockWords ws := by
  induction ws generalizing before with
  | nil => rfl
  | cons w ws ih =>
    rw [withoutOptional]
    split
    · next optional =>
      have none : w.lexeme.block? = none := by
        unfold isOptional at optional
        rw [Bool.and_eq_true, Option.any_some] at optional
        cases hw : w.lexeme <;> simp [hw, Lexeme.is] at optional
        simp [Lexeme.block?, optional]
      simp [ih, none]
    · simp [ih]

end Plc

/-
The control-flow graph of a statement list.

A statement is turned into a `Fragment`: the blocks it needs, numbered from a given
block on, the edges between them, where control enters, from which blocks it falls
out to what follows, and from which blocks it leaves the list at once.  Fragments
are put together as the statements are.

* `Fragment.ofStmt`, `Fragment.ofList` — the fragment of a statement and of a list;
* `Graph.ofList` — the whole graph, a fragment between the entry and the exit.
-/
import Plc.Flow.Graph

namespace Plc.Flow

/-- The innermost loop around a statement: where a pass is tested and where the loop ends. -/
structure Loop where
  header : Nat
  exit : Nat

/-- A part of a graph whose blocks are numbered in one piece. -/
structure Fragment where
  blocks : List Block
  edges : List Edge
  /-- The block at which control enters. -/
  first : Nat
  /-- The blocks from which control goes on to what follows. -/
  exits : List Nat
  /-- The blocks from which control goes to the end of the whole list. -/
  leaves : List Nat

namespace Fragment

/-- One block that control falls through. -/
def single (n : Nat) (b : Block) : Fragment :=
  ⟨[b], [], n, [n], []⟩

/-- One block that control never falls through; it leaves by the given edges or the whole list. -/
def jump (n : Nat) (b : Block) : Option Edge → Fragment
  | some e => ⟨[b], [e], n, [], []⟩
  | none => ⟨[b], [], n, [], [n]⟩

/-- A fragment and then another: what falls out of the one enters the other. -/
def andThen (a b : Fragment) : Fragment :=
  { blocks := a.blocks ++ b.blocks
    edges := a.edges ++ b.edges ++ a.exits.map (Edge.mk · b.first .sequential)
    first := a.first
    exits := b.exits
    leaves := a.leaves ++ b.leaves }

/-- A fragment and a choice that one of its blocks may take: control falls out of either. -/
def orElse (a : Fragment) (source : Nat) (kind : EdgeKind) (b : Fragment) : Fragment :=
  { blocks := a.blocks ++ b.blocks
    edges := a.edges ++ b.edges ++ [⟨source, b.first, kind⟩]
    first := a.first
    exits := a.exits ++ b.exits
    leaves := a.leaves ++ b.leaves }

/-- A fragment and one more block, to which a block of the fragment goes when its condition
does not hold. -/
def addTest (a : Fragment) (source n : Nat) (b : Block) : Fragment :=
  { a with
    blocks := a.blocks ++ [b]
    edges := a.edges ++ [⟨source, n, .whenFalse⟩] }

/-- A block that decides and as yet has no choices. -/
def decision (n : Nat) (b : Block) : Fragment :=
  ⟨[b], [], n, [], []⟩

/-- A fragment out of which control also falls from the given block. -/
def fallFrom (a : Fragment) (n : Nat) : Fragment :=
  { a with exits := a.exits ++ [n] }

/-- A loop that tests before each pass. -/
def testFirst (n : Nat) (header exit : Block) (body : Fragment) : Fragment :=
  { blocks := header :: exit :: body.blocks
    edges := body.edges ++ [⟨n, body.first, .whenTrue⟩, ⟨n, n + 1, .whenFalse⟩] ++
      body.exits.map (Edge.mk · n .loopBack)
    first := n
    exits := [n + 1]
    leaves := body.leaves }

/-- A loop that tests after each pass. -/
def testLast (n : Nat) (start condition exit : Block) (body : Fragment) : Fragment :=
  { blocks := start :: condition :: exit :: body.blocks
    edges := body.edges ++ [⟨n, body.first, .sequential⟩] ++
      body.exits.map (Edge.mk · (n + 1) .sequential) ++
      [⟨n + 1, n + 2, .whenTrue⟩, ⟨n + 1, n, .whenFalse⟩]
    first := n
    exits := [n + 2]
    leaves := body.leaves }

/-- The block that runs a statement. -/
def plain (s : Stmt) : Block :=
  { kind := .basic, statement := some s, span := s.span }

mutual

/-- The fragment of a statement whose first block is `n`. -/
def ofStmt (loop : Option Loop) (n : Nat) : Stmt → Fragment
  | .ifThen s (.mk branch condition body) elsifs otherwise =>
    let test : Block :=
      { kind := .branch, statement := some (.ifThen s (.mk branch condition body) elsifs otherwise),
        span := branch }
    let (known, last) :=
      ofElsifs loop n n ((decision n test).orElse n .whenTrue (ofList loop (n + 1) body)) elsifs
    match otherwise with
    | some ss => known.orElse last .whenFalse (ofList loop (n + known.blocks.length) ss)
    | none => known.fallFrom last
  | .caseOf s selector branches otherwise =>
    let test : Block :=
      { kind := .branch, statement := some (.caseOf s selector branches otherwise), span := s }
    let known := ofBranches loop n (decision n test) branches
    match otherwise with
    | some ss => known.orElse n .whenFalse (ofList loop (n + known.blocks.length) ss)
    | none => known.fallFrom n
  | .forLoop s control start stop step body =>
    testFirst n ⟨.loopHeader, some (.forLoop s control start stop step body), s⟩
      ⟨.loopExit, none, s⟩ (ofList (some ⟨n, n + 1⟩) (n + 2) body)
  | .whileLoop s condition body =>
    testFirst n ⟨.loopHeader, some (.whileLoop s condition body), s⟩ ⟨.loopExit, none, s⟩
      (ofList (some ⟨n, n + 1⟩) (n + 2) body)
  | .repeatLoop s body condition =>
    testLast n ⟨.basic, none, s⟩ ⟨.loopHeader, some (.repeatLoop s body condition), s⟩
      ⟨.loopExit, none, s⟩ (ofList (some ⟨n + 1, n + 2⟩) (n + 3) body)
  | .region s title [] => single n (plain (.region s title []))
  | .region _ _ (first :: rest) => ofTail loop n (ofStmt loop n first) rest
  | .leave s value => jump n (plain (.leave s value)) none
  | .exitLoop s => jump n (plain (.exitLoop s)) (loop.map fun l => ⟨n, l.exit, .loopExit⟩)
  | .nextPass s => jump n (plain (.nextPass s)) (loop.map fun l => ⟨n, l.header, .loopBack⟩)
  | s => single n (plain s)

/-- The fragment of a list whose first block is `n`; an empty list has one empty block. -/
def ofList (loop : Option Loop) (n : Nat) : List Stmt → Fragment
  | [] => single n { kind := .basic }
  | s :: ss => ofTail loop n (ofStmt loop n s) ss

/-- A fragment that begins at `n`, and then some statements. -/
def ofTail (loop : Option Loop) (n : Nat) (done : Fragment) : List Stmt → Fragment
  | [] => done
  | s :: ss => ofTail loop n (done.andThen (ofStmt loop (n + done.blocks.length) s)) ss

/-- A fragment that begins at `n`, with further conditions that are tested when the one at
`source` does not hold; the last of them is given back with it. -/
def ofElsifs (loop : Option Loop) (n source : Nat) (done : Fragment) :
    List IfBranch → Fragment × Nat
  | [] => (done, source)
  | .mk s _ body :: bs =>
    let test := n + done.blocks.length
    let tested := done.addTest source test { kind := .branch, span := s }
    ofElsifs loop n test (tested.orElse test .whenTrue (ofList loop (test + 1) body)) bs

/-- A fragment that begins with the decision `n`, and some of its choices. -/
def ofBranches (loop : Option Loop) (n : Nat) (done : Fragment) : List CaseBranch → Fragment
  | [] => done
  | .mk _ _ body :: bs =>
    ofBranches loop n (done.orElse n .whenTrue (ofList loop (n + done.blocks.length) body)) bs

end

end Fragment

/-- The control-flow graph of a statement list. -/
def Graph.ofList (stmts : List Stmt) : Graph :=
  let ends : List Block := [{ kind := .entry }, { kind := .exit }]
  match stmts with
  | [] => { blocks := ends, edges := [⟨0, 1, .sequential⟩] }
  | s :: ss =>
    let body := Fragment.ofList none 2 (s :: ss)
    { blocks := ends ++ body.blocks
      edges := body.edges ++ [⟨0, body.first, .sequential⟩] ++
        body.exits.map (Edge.mk · 1 .sequential) ++ body.leaves.map (Edge.mk · 1 .leave) }

end Plc.Flow

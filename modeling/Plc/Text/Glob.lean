/-
Patterns with wildcards.

`*` stands for any run of characters, `?` for one character, and `[…]` for one character of a
set, or of none of it when the set begins with `!`.  Every other character stands for itself, and
so does a bracket that is not closed.

* `Glob.ofText` — the pattern that a text is;
* `Glob.holds` — a text is of the shape of a pattern.
-/
namespace Plc.Text

/-- A member of a set: a character, or all characters from one to another. -/
inductive Glob.Member where
  | one (c : Char)
  | range (low high : Char)

/-- A piece of a pattern. -/
inductive Glob.Piece where
  | run
  | any
  | one (c : Char)
  | among (negated : Bool) (members : List Glob.Member)

/-- A pattern. -/
abbrev Glob := List Glob.Piece

namespace Glob

/-- The character is the member, or in it. -/
def Member.holds (c : Char) : Member → Bool
  | .one d => c == d
  | .range low high => low ≤ c && c ≤ high

/-- The member holds at least one character. -/
def Member.isInhabited : Member → Bool
  | .one _ => true
  | .range low high => low ≤ high

/-- What stands between brackets; a hyphen between two characters makes a range. -/
def members : List Char → List Member
  | low :: '-' :: high :: cs => .range low high :: members cs
  | c :: cs => .one c :: members cs
  | [] => []

/-- The set between brackets.  Ranges that run backwards are left out before the sign of negation
is looked for. -/
def set (contents : List Char) : Piece :=
  match contents with
  | '!' :: cs => .among true ((members cs).filter Member.isInhabited)
  | cs =>
    match (members cs).filter Member.isInhabited with
    | .one '!' :: ms => .among true ms
    | .range '!' high :: ms => .among true (.one '-' :: .one high :: ms)
    | ms => .among false ms

/-- So many characters at the beginning of a set cannot close it. -/
def openingLength : List Char → Nat
  | '!' :: ']' :: _ => 2
  | '!' :: _ | ']' :: _ => 1
  | _ => 0

/-- What stands before and what after the bracket that closes a set.  A bracket that the set begins
with, after the sign of negation perhaps, is one of its members. -/
def closing? (cs : List Char) : Option (List Char × List Char) :=
  let start := openingLength cs
  match (cs.drop start).dropWhile (· != ']') with
  | [] => none
  | _ :: after => some (cs.take start ++ (cs.drop start).takeWhile (· != ']'), after)

theorem length_of_closing? {cs contents after : List Char}
    (h : closing? cs = some (contents, after)) : after.length < cs.length := by
  unfold closing? at h
  dsimp only at h
  split at h
  · cases h
  · next c rest e =>
    cases h
    have h1 := (List.dropWhile_sublist (l := cs.drop (openingLength cs)) (· != ']')).length_le
    rw [e] at h1
    simp only [List.length_cons, List.length_drop] at h1
    omega

/-- The pattern that a text is. -/
def ofText : List Char → Glob
  | [] => []
  | '*' :: cs => .run :: ofText cs
  | '?' :: cs => .any :: ofText cs
  | '[' :: cs =>
    match _h : closing? cs with
    | some (contents, after) => set contents :: ofText after
    | none => .one '[' :: ofText cs
  | c :: cs => .one c :: ofText cs
termination_by cs => cs.length
decreasing_by
  · simp
  · simp
  · have := length_of_closing? _h
    simp only [List.length_cons]
    omega
  · simp
  · simp

/-- The character is of the shape of a piece that stands for one. -/
def Piece.holds (c : Char) : Piece → Bool
  | .run | .any => true
  | .one d => c == d
  | .among negated ms => ms.any (Member.holds c) != negated

/-- The whole text is of the shape of the pattern. -/
def holds : Glob → List Char → Bool
  | [], cs => cs.isEmpty
  | .run :: ps, cs => (List.range (cs.length + 1)).any fun n => holds ps (cs.drop n)
  | _ :: _, [] => false
  | p :: ps, c :: cs => p.holds c && holds ps cs

end Glob

end Plc.Text

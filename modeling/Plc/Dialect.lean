/-
Flavours of Structured Text.

One reader serves all flavours.  A `Dialect` switches on the pieces of syntax
that a vendor adds: object orientation, block forms, pragmas, quoted names and
so on.
-/
import Plc.Token.Keyword

namespace Plc

/-- The pieces of syntax that a flavour of Structured Text admits. -/
structure Dialect where
  name : String
  /-- Classes, interfaces, methods, namespaces, references, `^` and `NULL`. -/
  objects : Bool := false
  /-- `BEGIN`, `REGION`, jumps and labels, data and organization blocks, block attributes. -/
  blocks : Bool := false
  /-- Annotations in braces. -/
  pragmas : Bool := false
  /-- A double-quoted text is a name rather than a wide string. -/
  quotedNames : Bool := false
  /-- `#temp` is a block-local variable. -/
  localMark : Bool := false
  /-- `+=`, `-=`, `*=` and `/=`. -/
  compoundAssignment : Bool := false
  /-- Empty positional arguments are accepted. -/
  inferredArguments : Bool := false
  /-- A name and a colon at the place of a statement begin a new `CASE` branch. -/
  namedCaseLabels : Bool := true

namespace Dialect

/-- The generic language with object orientation. -/
def generic : Dialect where
  name := "st"
  objects := true

/-- The language of block-structured controllers. -/
def scl : Dialect where
  name := "scl"
  blocks := true
  pragmas := true
  quotedNames := true
  localMark := true
  compoundAssignment := true

/-- The language of tag-based controllers. -/
def rockwell : Dialect where
  name := "rockwell"
  inferredArguments := true

/-- The word is reserved. -/
def reserves (d : Dialect) (k : Keyword) : Bool :=
  match k.group with
  | .common => true
  | .objects => d.objects
  | .blocks => d.blocks

/-- The reserved words. -/
def keywords (d : Dialect) : List Keyword :=
  Keyword.all.filter d.reserves

/-- The reserved word with the given spelling in capitals. -/
def keyword? (d : Dialect) (spelling : String) : Option Keyword :=
  (Keyword.ofSpelling? spelling).filter d.reserves

theorem keyword?_spelling {d : Dialect} {k : Keyword} (h : d.reserves k = true) :
    d.keyword? k.spelling = some k := by
  simp [keyword?, Keyword.ofSpelling?_spelling, h]

end Dialect

end Plc

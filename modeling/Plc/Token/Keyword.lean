/-
The reserved words of Structured Text.

Every word carries its own spelling as its name.  A word belongs to one of
three groups; which groups are reserved is up to the dialect.

* `ofSpelling?_spelling` — reading a spelling gives the word back.
-/

namespace Plc

/-- A reserved word. -/
inductive Keyword where
  | PROGRAM | END_PROGRAM | FUNCTION | END_FUNCTION | FUNCTION_BLOCK | END_FUNCTION_BLOCK
  | VAR | VAR_INPUT | VAR_OUTPUT | VAR_IN_OUT | VAR_TEMP | VAR_GLOBAL | VAR_EXTERNAL | VAR_ACCESS | VAR_CONFIG | END_VAR
  | CONSTANT | RETAIN | NON_RETAIN | AT
  | TYPE | END_TYPE | STRUCT | END_STRUCT | ARRAY | OF | STRING | WSTRING
  | IF | THEN | ELSIF | ELSE | END_IF | CASE | END_CASE | FOR | TO | BY | DO | END_FOR
  | WHILE | END_WHILE | REPEAT | UNTIL | END_REPEAT | EXIT | CONTINUE | RETURN
  | TRUE | FALSE | AND | OR | XOR | NOT | MOD
  | CLASS | END_CLASS | INTERFACE | END_INTERFACE | METHOD | END_METHOD | NAMESPACE | END_NAMESPACE | USING
  | EXTENDS | IMPLEMENTS | FINAL | ABSTRACT | OVERRIDE | PUBLIC | PRIVATE | PROTECTED | INTERNAL | REF_TO | NULL
  | BEGIN | REGION | END_REGION | GOTO
  | DATA_BLOCK | END_DATA_BLOCK | ORGANIZATION_BLOCK | END_ORGANIZATION_BLOCK
  deriving DecidableEq

/-- The groups of reserved words: those of every dialect, those for object orientation, and those
for blocks, regions and jumps. -/
inductive Keyword.Group where
  | common
  | objects
  | blocks
  deriving DecidableEq

namespace Keyword

/-- Every reserved word. -/
def all : List Keyword := [
  .PROGRAM, .END_PROGRAM, .FUNCTION, .END_FUNCTION, .FUNCTION_BLOCK, .END_FUNCTION_BLOCK, .VAR,
  .VAR_INPUT, .VAR_OUTPUT, .VAR_IN_OUT, .VAR_TEMP, .VAR_GLOBAL, .VAR_EXTERNAL, .VAR_ACCESS,
  .VAR_CONFIG, .END_VAR, .CONSTANT, .RETAIN, .NON_RETAIN, .AT, .TYPE, .END_TYPE, .STRUCT,
  .END_STRUCT, .ARRAY, .OF, .STRING, .WSTRING, .IF, .THEN, .ELSIF, .ELSE, .END_IF, .CASE,
  .END_CASE, .FOR, .TO, .BY, .DO, .END_FOR, .WHILE, .END_WHILE, .REPEAT, .UNTIL, .END_REPEAT,
  .EXIT, .CONTINUE, .RETURN, .TRUE, .FALSE, .AND, .OR, .XOR, .NOT, .MOD, .CLASS, .END_CLASS,
  .INTERFACE, .END_INTERFACE, .METHOD, .END_METHOD, .NAMESPACE, .END_NAMESPACE, .USING, .EXTENDS,
  .IMPLEMENTS, .FINAL, .ABSTRACT, .OVERRIDE, .PUBLIC, .PRIVATE, .PROTECTED, .INTERNAL, .REF_TO,
  .NULL, .BEGIN, .REGION, .END_REGION, .GOTO, .DATA_BLOCK, .END_DATA_BLOCK, .ORGANIZATION_BLOCK,
  .END_ORGANIZATION_BLOCK]

/-- The spelling in capitals. -/
def spelling : Keyword → String
  | .PROGRAM => "PROGRAM"
  | .END_PROGRAM => "END_PROGRAM"
  | .FUNCTION => "FUNCTION"
  | .END_FUNCTION => "END_FUNCTION"
  | .FUNCTION_BLOCK => "FUNCTION_BLOCK"
  | .END_FUNCTION_BLOCK => "END_FUNCTION_BLOCK"
  | .VAR => "VAR"
  | .VAR_INPUT => "VAR_INPUT"
  | .VAR_OUTPUT => "VAR_OUTPUT"
  | .VAR_IN_OUT => "VAR_IN_OUT"
  | .VAR_TEMP => "VAR_TEMP"
  | .VAR_GLOBAL => "VAR_GLOBAL"
  | .VAR_EXTERNAL => "VAR_EXTERNAL"
  | .VAR_ACCESS => "VAR_ACCESS"
  | .VAR_CONFIG => "VAR_CONFIG"
  | .END_VAR => "END_VAR"
  | .CONSTANT => "CONSTANT"
  | .RETAIN => "RETAIN"
  | .NON_RETAIN => "NON_RETAIN"
  | .AT => "AT"
  | .TYPE => "TYPE"
  | .END_TYPE => "END_TYPE"
  | .STRUCT => "STRUCT"
  | .END_STRUCT => "END_STRUCT"
  | .ARRAY => "ARRAY"
  | .OF => "OF"
  | .STRING => "STRING"
  | .WSTRING => "WSTRING"
  | .IF => "IF"
  | .THEN => "THEN"
  | .ELSIF => "ELSIF"
  | .ELSE => "ELSE"
  | .END_IF => "END_IF"
  | .CASE => "CASE"
  | .END_CASE => "END_CASE"
  | .FOR => "FOR"
  | .TO => "TO"
  | .BY => "BY"
  | .DO => "DO"
  | .END_FOR => "END_FOR"
  | .WHILE => "WHILE"
  | .END_WHILE => "END_WHILE"
  | .REPEAT => "REPEAT"
  | .UNTIL => "UNTIL"
  | .END_REPEAT => "END_REPEAT"
  | .EXIT => "EXIT"
  | .CONTINUE => "CONTINUE"
  | .RETURN => "RETURN"
  | .TRUE => "TRUE"
  | .FALSE => "FALSE"
  | .AND => "AND"
  | .OR => "OR"
  | .XOR => "XOR"
  | .NOT => "NOT"
  | .MOD => "MOD"
  | .CLASS => "CLASS"
  | .END_CLASS => "END_CLASS"
  | .INTERFACE => "INTERFACE"
  | .END_INTERFACE => "END_INTERFACE"
  | .METHOD => "METHOD"
  | .END_METHOD => "END_METHOD"
  | .NAMESPACE => "NAMESPACE"
  | .END_NAMESPACE => "END_NAMESPACE"
  | .USING => "USING"
  | .EXTENDS => "EXTENDS"
  | .IMPLEMENTS => "IMPLEMENTS"
  | .FINAL => "FINAL"
  | .ABSTRACT => "ABSTRACT"
  | .OVERRIDE => "OVERRIDE"
  | .PUBLIC => "PUBLIC"
  | .PRIVATE => "PRIVATE"
  | .PROTECTED => "PROTECTED"
  | .INTERNAL => "INTERNAL"
  | .REF_TO => "REF_TO"
  | .NULL => "NULL"
  | .BEGIN => "BEGIN"
  | .REGION => "REGION"
  | .END_REGION => "END_REGION"
  | .GOTO => "GOTO"
  | .DATA_BLOCK => "DATA_BLOCK"
  | .END_DATA_BLOCK => "END_DATA_BLOCK"
  | .ORGANIZATION_BLOCK => "ORGANIZATION_BLOCK"
  | .END_ORGANIZATION_BLOCK => "END_ORGANIZATION_BLOCK"

/-- The words for classes, interfaces, methods and references. -/
def objectWords : List Keyword := [
  .CLASS, .END_CLASS, .INTERFACE, .END_INTERFACE, .METHOD, .END_METHOD, .NAMESPACE,
  .END_NAMESPACE, .USING, .EXTENDS, .IMPLEMENTS, .FINAL, .ABSTRACT, .OVERRIDE, .PUBLIC, .PRIVATE,
  .PROTECTED, .INTERNAL, .REF_TO, .NULL]

/-- The words for data blocks, organization blocks, regions and jumps. -/
def blockWords : List Keyword := [
  .BEGIN, .REGION, .END_REGION, .GOTO, .DATA_BLOCK, .END_DATA_BLOCK, .ORGANIZATION_BLOCK,
  .END_ORGANIZATION_BLOCK]

/-- The group a word belongs to. -/
def group (k : Keyword) : Group :=
  if objectWords.contains k then .objects
  else if blockWords.contains k then .blocks
  else .common

/-- The word with the given spelling in capitals. -/
def ofSpelling? (spelling : String) : Option Keyword :=
  all.find? (·.spelling == spelling)

theorem mem_all (k : Keyword) : k ∈ all := by
  cases k <;> decide

theorem ofSpelling?_spelling (k : Keyword) : ofSpelling? k.spelling = some k := by
  have each : ∀ k ∈ all, ofSpelling? k.spelling = some k := by decide +kernel
  exact each k k.mem_all

end Keyword

end Plc

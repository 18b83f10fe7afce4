/-
Answers as documents.

Every type is a record of the same fields, most of them empty.  What is wrong with a text is told as a
record of the kind of problem, its wording, its place and its parts; with the text at hand, the record
shows the line as well.

* `Ty.document`, `Symbol.document` — types, and what is known of a name;
* `SyntaxError.document`, `LimitError.document`, `RungError.document` — refusals;
* `Diagnostic.document` — what the analysis has to say;
* `Ladder.Rung.document`, `Ladder.Operand.Value.document` — rungs and operands.
-/
import Plc.Diagnostic
import Plc.Exchange.Tree
import Plc.Ladder.Reading
import Plc.Ladder.Rung
import Plc.Scope

namespace Plc

open Document (ofOption ofText? ofTexts ofEntries)

/-- The record of a type of the given sort: the fields that are not given are empty. -/
def Document.sortOfType (sort : String) (fields : List (String × Document)) : Document :=
  .record (("kind", .text sort) :: [("name", Document.null), ("length", .null), ("element", .null),
    ("dims", .number 0), ("fields", .record []), ("values", .list []), ("low", .null),
    ("high", .null)].map fun e => (e.1, (fields.lookup e.1).getD e.2))

/-- A type given by nothing but a name. -/
def NamedType.document : NamedType → Document
  | .simple k => Document.sortOfType k.name []
  | .string wide => Document.sortOfType (stringName wide) []
  | .other name => Document.sortOfType "STRUCT" [("name", name)]

namespace Ty

mutual

/-- A type. -/
def document : Ty → Document
  | .simple k => Document.sortOfType k.name []
  | .string wide n => Document.sortOfType (stringName wide) [("length", ofOption .number n)]
  | .array n element => Document.sortOfType "ARRAY" [("dims", n), ("element", element.document)]
  | .struct name fields => Document.sortOfType "STRUCT"
    [("name", ofText? name), ("fields", .record (fieldDocuments fields))]
  | .enum name members base => Document.sortOfType "ENUM"
    [("name", ofText? name), ("values", ofTexts members),
      ("element", ofOption NamedType.document base)]
  | .subrange base low high => Document.sortOfType "SUBRANGE"
    [("element", base.document), ("low", ofOption .number low),
      ("high", ofOption .number high)]
  | .functionBlock name => Document.sortOfType "FUNCTION_BLOCK" [("name", name)]
  | .pointer (some element) => Document.sortOfType "POINTER" [("element", element.document)]
  | .pointer none => Document.sortOfType "POINTER" []

/-- The fields of a structure. -/
def fieldDocuments : List (String × Ty) → List (String × Document)
  | [] => []
  | (name, t) :: fs => (name, t.document) :: fieldDocuments fs

end

end Ty

/-- What is known of a name. -/
def Symbol.document (x : Symbol) : Document :=
  .record [("name", x.name), ("kind", x.kind.code), ("type", ofOption Ty.document x.type),
    ("span", x.span.document), ("mutable", x.isMutable), ("used", x.used),
    ("assigned", x.assigned)]

open Document (ofOption ofText? ofEntries)

/-- A syntax error; with the source, also the line it is in. -/
def SyntaxError.document (e : SyntaxError) (source : Option (List Char) := none) : Document :=
  .record ([("error", .text e.kind.code), ("message", .text e.located), ("span", e.span.document),
    ("expected", ofText? e.expected), ("found", ofText? e.found), ("detail", ofText? e.detail)] ++
    (source.map fun s => ("excerpt", .text (e.excerpt s))).toList)

/-- A passed limit, with some more fields. -/
def LimitError.document (e : LimitError) (source : Option (List Char) := none)
    (more : List (String × Document) := []) : Document :=
  .record ([("error", .text SyntaxError.Kind.securityLimit.code), ("message", .text e.located),
    ("span", e.span.document), ("expected", .null), ("found", .null), ("detail", .null),
    ("limit_kind", e.kind.label), ("limit", e.bound), ("value", e.value)] ++
    (source.map fun s => ("excerpt", .text (e.excerpt s))).toList ++ more)

/-- An error in the text of a rung. -/
def Ladder.RungError.document (e : RungError) : Document :=
  .record [("error", e.kind.code), ("message", e.message),
    ("position", ofOption (fun (n : Nat) => (n : Document)) e.position),
    ("span", ofOption Span.document e.span), ("char", ofText? e.char),
    ("expected", ofText? e.expected)]

/-- A part of a finding. -/
def Finding.Part.document : Finding.Part → Document
  | .text s => s
  | .number n => n
  | .flag b => b

/-- A diagnostic. -/
def Diagnostic.document (d : Diagnostic) : Document :=
  .record [("kind", d.finding.rule), ("span", d.span.document), ("severity", d.severity.label),
    ("args", ofEntries Finding.Part.document d.finding.parts),
    ("related_span", ofOption Span.document d.related), ("message", d.finding.message),
    ("str", d.render)]

end Plc

namespace Plc.Ladder

open Document (ofText? ofList)

mutual

/-- What an operand refers to. -/
def Operand.Value.document : Operand.Value → Document
  | .literal text => .record [("kind", "literal"), ("text", text)]
  | .tag base path indices => .record [("kind", "tag"), ("base", base), ("full_path", path),
    ("indices", .list (Operand.Value.documents indices))]
  | .expression text terms => .record [("kind", "expression"), ("text", text),
    ("terms", .list (Operand.Value.documents terms))]

/-- What each of some operands refers to. -/
def Operand.Value.documents : List Operand.Value → List Document
  | [] => []
  | v :: vs => v.document :: Operand.Value.documents vs

end

/-- An instruction. -/
def Instruction.document (i : Instruction) : Document :=
  .record [("kind", "instruction"), ("mnemonic", i.mnemonic),
    ("operands", ofList (fun x => .record [("value", ofText? x)]) i.operands),
    ("span", i.span.document)]

/-- A tag that an operand mentions. -/
def TagUse.document (u : TagUse) : Document :=
  .record [("name", u.name), ("full_operand", u.operand), ("instruction", u.instruction),
    ("operand_index", u.index)]

mutual

/-- An element of a rung. -/
def Element.document : Element → Document
  | .instruction i => i.document
  | .parallel span branches => .record [("kind", "parallel"),
    ("branches", .list (Element.branchDocuments branches)), ("span", span.document)]

/-- Each element of a series. -/
def Element.documents : List Element → List Document
  | [] => []
  | e :: es => e.document :: Element.documents es

/-- Each branch of a group. -/
def Element.branchDocuments : List (List Element) → List Document
  | [] => []
  | b :: bs => .record [("elements", .list (Element.documents b))] :: Element.branchDocuments bs

end

/-- A rung. -/
def Rung.document (r : Rung) : Document :=
  .record [("elements", .list (Element.documents r.elements))]

end Plc.Ladder

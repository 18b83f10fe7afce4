/-
Documents for the exchange with other programs.

A `Document` is a value made of truth values, numbers and texts, of lists, and of records whose
fields are known by name.  What is read out of a document comes as a `Form` with the
faults that were met, so that all of them are reported and not only the first.

* `Document.field?` — the value of a field; a field that is null counts as missing;
* `sizeOf_of_field?`, `sizeOf_of_mem_items` — what is inside of a document is smaller;
* `Form.run` — what was read, or everything that is wrong with it.
-/
namespace Plc

/-- A value that other programs can read. -/
inductive Document where
  | null
  | flag (b : Bool)
  | number (n : Int)
  | real (x : Float)
  | text (s : String)
  | list (items : List Document)
  | record (fields : List (String × Document))

namespace Document

instance : Inhabited Document := ⟨.null⟩

instance : Coe String Document := ⟨.text⟩

instance : Coe Bool Document := ⟨.flag⟩

instance : Coe Int Document := ⟨.number⟩

instance : Coe Nat Document := ⟨fun n => .number n⟩

/-- A value that may be missing. -/
def ofOption (f : α → Document) : Option α → Document
  | some a => f a
  | none => .null

/-- A list of values. -/
def ofList (f : α → Document) (xs : List α) : Document :=
  .list (xs.map f)

/-- A text that may be missing. -/
def ofText? : Option String → Document :=
  ofOption .text

/-- A list of texts. -/
def ofTexts : List String → Document :=
  ofList .text

/-- A record with the given entries. -/
def ofEntries (f : α → Document) (entries : List (String × α)) : Document :=
  .record (entries.map fun e => (e.1, f e.2))

/-- The value of a field, unless it is missing or null. -/
def field? (d : Document) (name : String) : Option Document :=
  match d with
  | .record fields =>
    match fields.lookup name with
    | some .null | none => none
    | some v => some v
  | _ => none

/-- The text that the document is, or the empty text. -/
def asText : Document → String
  | .text s => s
  | _ => ""

/-- The number that the document is, or zero. -/
def asNumber : Document → Int
  | .number n => n
  | _ => 0

/-- The document is the truth value *true*. -/
def asFlag : Document → Bool
  | .flag b => b
  | _ => false

/-- The items that the document lists. -/
def asList : Document → List Document
  | .list items => items
  | _ => []

/-- The text in a field. -/
def text? (d : Document) (name : String) : Option String :=
  (d.field? name).map asText

/-- The text in a field, or a default. -/
def textOr (d : Document) (name : String) (default : String := "") : String :=
  (d.text? name).getD default

/-- The number in a field. -/
def number? (d : Document) (name : String) : Option Int :=
  (d.field? name).map asNumber

/-- The truth value in a field, or a default. -/
def flagOr (d : Document) (name : String) (default : Bool := true) : Bool :=
  ((d.field? name).map asFlag).getD default

/-- The truth value in a field, or *false*. -/
def flagOf (d : Document) (name : String) : Bool :=
  d.flagOr name false

/-- The items in a field. -/
def items (d : Document) (name : String) : List Document :=
  ((d.field? name).map asList).getD []

/-- The texts in a field. -/
def texts (d : Document) (name : String) : List String :=
  (d.items name).map asText

theorem sizeOf_of_field? {d v : Document} {name : String} (h : d.field? name = some v) :
    sizeOf v < sizeOf d := by
  unfold field? at h
  split at h
  · next fields =>
    have found : fields.lookup name = some v := by
      split at h <;> simp_all
    obtain ⟨l, k, rest, rfl, _⟩ : ∃ l k rest, fields = l ++ (k, v) :: rest ∧ True := by
      clear h
      induction fields with
      | nil => simp at found
      | cons e es ih =>
        obtain ⟨k, w⟩ := e
        by_cases hk : name == k
        · simp only [List.lookup_cons, hk] at found
          exact ⟨[], k, es, by cases found; simp, trivial⟩
        · simp only [List.lookup_cons, hk] at found
          obtain ⟨l, k', rest, e, _⟩ := ih found
          exact ⟨(k, w) :: l, k', rest, by simp [e], trivial⟩
    have : sizeOf (k, v) < sizeOf (l ++ (k, v) :: rest) := List.sizeOf_lt_of_mem (by simp)
    simp only [Prod.mk.sizeOf_spec, record.sizeOf_spec] at *
    omega
  · cases h

theorem sizeOf_of_mem_items {d x : Document} {name : String} (h : x ∈ d.items name) :
    sizeOf x < sizeOf d := by
  unfold items at h
  cases hf : d.field? name with
  | none => simp [hf] at h
  | some v =>
    have hv := sizeOf_of_field? hf
    cases v with
    | list items =>
      have := List.sizeOf_lt_of_mem (by simpa [hf, asList] using h : x ∈ items)
      simp only [list.sizeOf_spec] at hv
      omega
    | _ => simp [hf, asList] at h

end Document

/-- What is read out of a document, with the faults met so far. -/
abbrev Form (α : Type) := StateM (List String) α

namespace Form

/-- Records a fault, if there is one. -/
def note (fault : Option String) : Form Unit :=
  modify (· ++ fault.toList)

/-- What was read, with its fault if there is one. -/
def take [Inhabited α] : Except String α → Form α
  | .ok a => return a
  | .error fault => do
    note (some fault)
    return default

/-- What was read, or all faults in the order in which they were met. -/
def run (form : Form α) : Except String α :=
  match StateT.run (m := Id) form [] with
  | (a, []) => .ok a
  | (_, faults) => .error ("; ".intercalate faults)

end Form

end Plc

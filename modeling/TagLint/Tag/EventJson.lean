import TagLint.Json.Reader
import TagLint.Tag.Event

/-!
# Event streams in JSON — a list of tagged records

An event is an object whose member `kind` names its variant, or a list that starts with that name.  A stream is
read as a whole: one refused event refuses it.
-/

namespace TagLint.Event

open Json

/-! ## Fields -/

/-- The fields of a chunk read so far. -/
structure ChunkFields where
  line : Option Coord := none
  col : Option Coord := none
  raw : Option String := none

def ChunkFields.read (fields : ChunkFields) : String × Json → Except Mismatch ChunkFields
  | ("line", j) => return { fields with line := ← fill "line" fields.line asCoord j }
  | ("col", j) => return { fields with col := ← fill "col" fields.col asCoord j }
  | ("raw", j) => return { fields with raw := ← fill "raw" fields.raw asString j }
  | _ => return fields

def chunkOfMembers (members : List (String × Json)) : Except Mismatch Chunk := do
  let fields ← members.foldlM ChunkFields.read {}
  return ⟨← need "line" fields.line, ← need "col" fields.col, fields.raw.getD ""⟩

def chunkOfItems (items : List Json) : Except Mismatch Chunk := do
  let record := "struct Chunk with 3 elements"
  let (line, items) ← nextField 0 record asCoord items
  let (col, items) ← nextField 1 record asCoord items
  let (raw, items) ← nextFieldOr "" asString items
  noMoreFields 3 items
  return ⟨line, col, raw⟩

/-- The fields of a closing tag read so far. -/
structure CloseTagFields where
  name : Option String := none
  line : Option Coord := none
  col : Option Coord := none
  raw : Option String := none

def CloseTagFields.read (fields : CloseTagFields) : String × Json → Except Mismatch CloseTagFields
  | ("tag_name", j) => return { fields with name := ← fill "tag_name" fields.name asString j }
  | ("line", j) => return { fields with line := ← fill "line" fields.line asCoord j }
  | ("col", j) => return { fields with col := ← fill "col" fields.col asCoord j }
  | ("raw", j) => return { fields with raw := ← fill "raw" fields.raw asString j }
  | _ => return fields

def closeTagOfMembers (members : List (String × Json)) : Except Mismatch CloseTag := do
  let fields ← members.foldlM CloseTagFields.read {}
  return ⟨← need "tag_name" fields.name, ← need "line" fields.line, ← need "col" fields.col,
    fields.raw.getD ""⟩

def closeTagOfItems (items : List Json) : Except Mismatch CloseTag := do
  let record := "struct TagEnd with 4 elements"
  let (name, items) ← nextField 0 record asString items
  let (line, items) ← nextField 1 record asCoord items
  let (col, items) ← nextField 2 record asCoord items
  let (raw, items) ← nextFieldOr "" asString items
  noMoreFields 4 items
  return ⟨name, line, col, raw⟩

/-- The fields of an attribute read so far. -/
structure AttributeFields where
  name : Option String := none
  value : Option String := none
  offset : Option Coord := none

def AttributeFields.read (fields : AttributeFields) : String × Json → Except Mismatch AttributeFields
  | ("name", j) => return { fields with name := ← fill "name" fields.name asString j }
  | ("value", j) => return { fields with value := ← fill "value" fields.value asString j }
  | ("offset", j) => return { fields with offset := ← fill "offset" fields.offset asCoord j }
  | _ => return fields

def attributeOfItems (items : List Json) : Except Mismatch Attribute := do
  let (name, items) ← nextField 0 "struct Attribute with 3 elements" asString items
  let (value, items) ← nextFieldOr "" asString items
  let (offset, items) ← nextFieldOr 0 asCoord items
  noMoreFields 3 items
  return ⟨name, value, offset⟩

def asAttribute : Json → Except Mismatch Attribute
  | .object members => do
    let fields ← members.foldlM AttributeFields.read {}
    return ⟨← need "name" fields.name, fields.value.getD "", fields.offset.getD 0⟩
  | .array items => attributeOfItems items
  | j => .error (.type j "struct Attribute")

/-- The fields of an opening tag read so far. -/
structure OpenTagFields where
  name : Option String := none
  line : Option Coord := none
  col : Option Coord := none
  selfClosed : Option Bool := none
  attrs : Option (List Attribute) := none
  raw : Option String := none

def OpenTagFields.read (fields : OpenTagFields) : String × Json → Except Mismatch OpenTagFields
  | ("tag_name", j) => return { fields with name := ← fill "tag_name" fields.name asString j }
  | ("line", j) => return { fields with line := ← fill "line" fields.line asCoord j }
  | ("col", j) => return { fields with col := ← fill "col" fields.col asCoord j }
  | ("self_closed", j) => return { fields with selfClosed := ← fill "self_closed" fields.selfClosed asBool j }
  | ("close", j) => return { fields with selfClosed := ← fill "self_closed" fields.selfClosed asBool j }
  | ("attrs", j) => return { fields with attrs := ← fill "attrs" fields.attrs (asListOf asAttribute) j }
  | ("raw", j) => return { fields with raw := ← fill "raw" fields.raw asString j }
  | _ => return fields

def openTagOfMembers (members : List (String × Json)) : Except Mismatch OpenTag := do
  let fields ← members.foldlM OpenTagFields.read {}
  return ⟨← need "tag_name" fields.name, ← need "line" fields.line, ← need "col" fields.col,
    fields.selfClosed.getD false, fields.attrs.getD [], fields.raw.getD ""⟩

def openTagOfItems (items : List Json) : Except Mismatch OpenTag := do
  let record := "struct TagOccurrence with 6 elements"
  let (name, items) ← nextField 0 record asString items
  let (line, items) ← nextField 1 record asCoord items
  let (col, items) ← nextField 2 record asCoord items
  let (selfClosed, items) ← nextFieldOr false asBool items
  let (attrs, items) ← nextFieldOr [] (asListOf asAttribute) items
  let (raw, items) ← nextFieldOr "" asString items
  noMoreFields 6 items
  return ⟨name, line, col, selfClosed, attrs, raw⟩

/-! ## Variants -/

/-- The variants of an event. -/
inductive Kind
  | openTag | text | comment | cdata | closeTag
  deriving DecidableEq, Repr

namespace Kind

def name : Kind → String
  | .openTag => "tag-start"
  | .text => "text"
  | .comment => "comment"
  | .cdata => "cdata"
  | .closeTag => "tag-end"

def all : List Kind := [.openTag, .text, .comment, .cdata, .closeTag]

def ofName? (s : String) : Option Kind := all.find? (·.name == s)

theorem ofName?_name (k : Kind) : ofName? k.name = some k := by cases k <;> decide

end Kind

def unknownKind (s : String) : Mismatch := .unknownVariant s (Kind.all.map Kind.name)

/-- The variant that a value names. -/
def asKind : Json → Except Mismatch Kind
  | .string s => match Kind.ofName? s with
    | some kind => .ok kind
    | none => .error (unknownKind s)
  | j => .error (.type j "variant identifier")

def ofMembers (kind : Kind) (members : List (String × Json)) : Except Mismatch Event :=
  match kind with
  | .openTag => (openTagOfMembers members).map .openTag
  | .text => (chunkOfMembers members).map .text
  | .comment => (chunkOfMembers members).map .comment
  | .cdata => (chunkOfMembers members).map .cdata
  | .closeTag => (closeTagOfMembers members).map .closeTag

def ofItems (kind : Kind) (items : List Json) : Except Mismatch Event :=
  match kind with
  | .openTag => (openTagOfItems items).map .openTag
  | .text => (chunkOfItems items).map .text
  | .comment => (chunkOfItems items).map .comment
  | .cdata => (chunkOfItems items).map .cdata
  | .closeTag => (closeTagOfItems items).map .closeTag

/-- Whether a member names the variant. -/
def isKind (m : String × Json) : Bool := m.1 == "kind"

/-- The event that a value stands for. -/
def ofJson : Json → Except Mismatch Event
  | .object members =>
    match members.filter isKind with
    | [] => .error (.missingField "kind")
    | [m] => do ofMembers (← asKind m.2) (members.filter fun m => !isKind m)
    | _ => .error (.duplicateField "kind")
  | .array [] => .error (.missingField "kind")
  | .array (k :: items) => do ofItems (← asKind k) items
  | j => .error (.type j "internally tagged enum Event")

/-! ## Streams -/

/-- The rest of the text after white space and, if it follows, a closing bracket. -/
def afterClosing (bracket : Char) (cs : List Char) : List Char :=
  match skipSpace cs with
  | c :: rest => if c = bracket then rest else c :: rest
  | [] => []

/-- The token that names the variant. -/
def guardKind (t : Token) : Option Fault :=
  match t.lexeme with
  | .string s => if (Kind.ofName? s).isSome then none else some (.before (.mismatch (unknownKind s)) t.stop)
  | _ => wrongType "variant identifier" t

/-- The event that is the latest item of the stream; `t` is the token after it. -/
def guardLatest (done : List Json) (t : Token) : Option Fault :=
  match done with
  | [] => none
  | j :: _ =>
    match ofJson j with
    | .ok _ => none
    | .error m =>
      let rest := match t.lexeme with
        | .closeList => t.stop
        | .comma => skipSpace t.stop
        | _ => t.start
      some (.before (.mismatch m) rest)

def missingKind (t : Token) : Fault := .before (.mismatch (.missingField "kind")) t.stop

/-- Refuses a stream at the first token that no list of events continues with. -/
def guardStream : Guard := fun mode frames t =>
  match frames, mode with
  | [], _ => guardList mode frames t
  | [.items done], .itemDone => guardLatest done t
  | [.items _], _ => wrongTypeOfEvent t
  | [.items [], .items _], .firstItem =>
    match t.lexeme with
    | .closeList => some (missingKind t)
    | _ => guardKind t
  | [.members done, .items _], mode =>
    match t.lexeme, mode with
    | .closeObject, .firstKey | .closeObject, .memberDone => if done.any isKind then none else some (missingKind t)
    | .string "kind", .firstKey | .string "kind", .nextKey =>
      if done.any isKind then
        some (.before (.mismatch (.duplicateField "kind")) (afterClosing '\x7d' t.stop))
      else none
    | _, _ => none
  | [.member _ "kind", .items _], .value => guardKind t
  | _, _ => none
where
  /-- An event is an object or a list. -/
  wrongTypeOfEvent (t : Token) : Option Fault :=
    match t.lexeme with
    | .openList | .openObject => none
    | _ => wrongType "internally tagged enum Event" t

/-- The events of a stream. -/
def readStream (text : List Char) : Except Fault (List Event) := do
  match ← readWith guardStream text with
  | .array items => (items.mapM ofJson).mapError fun m => .before (.mismatch m) []
  | j => throw (.before (.mismatch (.type j "a sequence")) [])

/-- The events of a stream, or the place where it is refused. -/
def parseStream (text : String) : Except Refusal (List Event) :=
  (readStream text.toList).mapError (·.locate text.toList)

end TagLint.Event

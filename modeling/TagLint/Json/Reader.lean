import TagLint.Json.Token

/-!
# Reader — JSON values from tokens

The reader is a machine on tokens: its state is what may come next, and the lists and objects that are open.
A `Guard` looks at every token before it is taken and may refuse it; it lets a typed reader stop at the first
token that cannot belong to its type.
-/

namespace TagLint.Json

/-- An open list or object with its content so far, the latest first. -/
inductive Frame
  | items (done : List Json)
  | members (done : List (String × Json))
  /-- An object in which the value of `key` is due. -/
  | member (done : List (String × Json)) (key : String)

/-- What may come next. -/
inductive Mode
  /-- A value. -/
  | value
  /-- The first item of a list, or its end. -/
  | firstItem
  /-- An item after a comma. -/
  | nextItem
  /-- A comma, or the end of a list. -/
  | itemDone
  /-- The first key of an object, or its end. -/
  | firstKey
  /-- A key after a comma. -/
  | nextKey
  /-- The colon after a key. -/
  | colon
  /-- A comma, or the end of an object. -/
  | memberDone

/-- Looks at a token before it is taken. -/
abbrev Guard := Mode → List Frame → Token → Option Fault

/-- The guard that refuses nothing. -/
def noGuard : Guard := fun _ _ _ => none

/-- Lists and objects may be open inside each other up to this depth. -/
def depthLimit : Nat := 127

/-- The machine after a token: a finished value, or what may come next. -/
inductive Progress
  | done (j : Json)
  | more (mode : Mode) (frames : List Frame)

/-- Put a finished value into the innermost open list or object. -/
def finish (j : Json) : List Frame → Progress
  | .items done :: fs => .more .itemDone (.items (j :: done) :: fs)
  | .member done key :: fs => .more .memberDone (.members ((key, j) :: done) :: fs)
  -- an object takes no value without a key: such a stack does not arise
  | .members _ :: _ => .done j
  | [] => .done j

/-- Open a list or object. -/
def openFrame (t : Token) (mode : Mode) (frame : Frame) (frames : List Frame) : Except Fault Progress :=
  if frames.length < depthLimit then .ok (.more mode (frame :: frames)) else .error (.atByte .tooDeep t.start)

/-- Take a token where a value may start. -/
def stepValue (frames : List Frame) (t : Token) : Except Fault Progress :=
  match t.lexeme with
  | .openList => openFrame t .firstItem (.items []) frames
  | .openObject => openFrame t .firstKey (.members []) frames
  | .string s => .ok (finish (.string s) frames)
  | .scalar j => .ok (finish j frames)
  | .malformed f => .error f
  | .endOfText => .error (.atByte .endInValue t.start)
  | _ => .error (.atByte .expectedValue t.start)

/-- Close the innermost list or object. -/
def close : List Frame → Progress
  | .items done :: fs => finish (.array done.reverse) fs
  | .members done :: fs => finish (.object done.reverse) fs
  | .member done _ :: fs => finish (.object done.reverse) fs
  | [] => .done .null

/-- Take a key. -/
def stepKey (frames : List Frame) (t : Token) : Except Fault Progress :=
  match t.lexeme, frames with
  | .string s, .members done :: fs => .ok (.more .colon (.member done s :: fs))
  | .malformed f, _ => if t.start.head? = some '"' then .error f else .error (.atByte .keyMustBeString t.start)
  | _, _ => .error (.atByte .keyMustBeString t.start)

/-- Take a token. -/
def step (mode : Mode) (frames : List Frame) (t : Token) : Except Fault Progress :=
  match mode with
  | .value => stepValue frames t
  | .firstItem =>
    match t.lexeme with
    | .closeList => .ok (close frames)
    | .endOfText => .error (.atByte .endInList t.start)
    | _ => stepValue frames t
  | .nextItem =>
    match t.lexeme with
    | .closeList => .error (.atByte .trailingComma t.start)
    | _ => stepValue frames t
  | .itemDone =>
    match t.lexeme with
    | .closeList => .ok (close frames)
    | .comma => .ok (.more .nextItem frames)
    | .endOfText => .error (.atByte .endInList t.start)
    | _ => .error (.atByte .expectedListEnd t.start)
  | .firstKey =>
    match t.lexeme with
    | .closeObject => .ok (close frames)
    | .endOfText => .error (.atByte .endInObject t.start)
    | _ => stepKey frames t
  | .nextKey =>
    match t.lexeme with
    | .closeObject => .error (.atByte .trailingComma t.start)
    | .endOfText => .error (.atByte .endInValue t.start)
    | _ => stepKey frames t
  | .colon =>
    match t.lexeme with
    | .colon => .ok (.more .value frames)
    | .endOfText => .error (.atByte .endInObject t.start)
    | _ => .error (.atByte .expectedColon t.start)
  | .memberDone =>
    match t.lexeme with
    | .closeObject => .ok (close frames)
    | .comma => .ok (.more .nextKey frames)
    | .endOfText => .error (.atByte .endInObject t.start)
    | _ => .error (.atByte .expectedObjectEnd t.start)

/-- Read one value; also the tokens after it. -/
def run (guard : Guard) (mode : Mode) (frames : List Frame) : List Token → Except Fault (Json × List Token)
  | [] => .error (.before .endInValue [])
  | t :: ts =>
    match guard mode frames t with
    | some f => .error f
    | none =>
      match step mode frames t with
      | .error f => .error f
      | .ok (.done j) => .ok (j, ts)
      | .ok (.more mode frames) => run guard mode frames ts

/-- Nothing but the end of the text may follow. -/
def endOnly : List Token → Except Fault Unit
  | [] => .ok ()
  | t :: _ =>
    match t.lexeme with
    | .endOfText => .ok ()
    | _ => .error (.atByte .trailingCharacters t.start)

/-- The one value that a text holds, under a guard. -/
def readWith (guard : Guard) (text : List Char) : Except Fault Json := do
  let (j, rest) ← run guard .value [] (tokens text)
  endOnly rest
  return j

/-- The one value that a text holds. -/
def read (text : List Char) : Except Fault Json := readWith noGuard text

/-- The one value that a text holds, or the place where the text is refused. -/
def parse (text : String) : Except Refusal Json :=
  (read text.toList).mapError (·.locate text.toList)

/-! ## Guards -/

/-- The fault of a token that starts a value of the wrong type; none if it starts no value at all. -/
def wrongType (expected : String) (t : Token) : Option Fault :=
  match t.lexeme with
  | .openList => some (.before (.mismatch (.type (.array []) expected)) t.start)
  | .openObject => some (.before (.mismatch (.type (.object []) expected)) t.start)
  | .string s => some (.before (.mismatch (.type (.string s) expected)) t.stop)
  | .scalar j => some (.before (.mismatch (.type j expected)) t.stop)
  | _ => none

/-- The text holds an object. -/
def guardObject : Guard := fun _ frames t =>
  match frames, t.lexeme with
  | [], .openObject => none
  | [], _ => wrongType "a map" t
  | _, _ => none

/-- The text holds a list. -/
def guardList : Guard := fun _ frames t =>
  match frames, t.lexeme with
  | [], .openList => none
  | [], _ => wrongType "a sequence" t
  | _, _ => none

/-- The members of the one object that a text holds. -/
def readObject (text : List Char) : Except Fault (List (String × Json)) := do
  match ← readWith guardObject text with
  | .object members => return members
  | j => throw (.before (.mismatch (.type j "a map")) [])

/-- The members of the one object that a text holds, in canonical form. -/
def parseObject (text : String) : Except Refusal (List (String × Json)) :=
  ((readObject text.toList).map canonicalObject).mapError (·.locate text.toList)

end TagLint.Json

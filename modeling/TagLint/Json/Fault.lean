import TagLint.Json.Mismatch
import TagLint.Text.Units

/-!
# Faults — why and where a JSON text is refused

A fault is placed by what is left to read: the rest of the text from some character on, and a number of bytes
into it.  Lines count from one; a column is the number of bytes since the last line feed.
-/

namespace TagLint.Json

/-- Why a JSON text is refused. -/
inductive Cause
  | endInValue
  | endInList
  | endInObject
  | endInString
  | expectedValue
  | expectedColon
  | expectedListEnd
  | expectedObjectEnd
  | keyMustBeString
  | trailingComma
  | trailingCharacters
  | tooDeep
  | invalidNumber
  | numberOutOfRange
  | expectedIdent
  | controlCharacter
  | invalidEscape
  | loneSurrogate
  | unpairedSurrogate
  | mismatch (m : Mismatch)

def Cause.message : Cause → String
  | .endInValue => "EOF while parsing a value"
  | .endInList => "EOF while parsing a list"
  | .endInObject => "EOF while parsing an object"
  | .endInString => "EOF while parsing a string"
  | .expectedValue => "expected value"
  | .expectedColon => "expected `:`"
  | .expectedListEnd => "expected `,` or `]`"
  | .expectedObjectEnd => "expected `,` or `\x7d`"
  | .keyMustBeString => "key must be a string"
  | .trailingComma => "trailing comma"
  | .trailingCharacters => "trailing characters"
  | .tooDeep => "recursion limit exceeded"
  | .invalidNumber => "invalid number"
  | .numberOutOfRange => "number out of range"
  | .expectedIdent => "expected ident"
  | .controlCharacter => "control character (\\u0000-\\u001F) found while parsing a string"
  | .invalidEscape => "invalid escape"
  | .loneSurrogate => "lone leading surrogate in hex escape"
  | .unpairedSurrogate => "unexpected end of hex escape"
  | .mismatch m => m.message

/-- A cause, placed `bytes` bytes into the rest of the text. -/
structure Fault where
  cause : Cause
  rest : List Char
  bytes : Nat

namespace Fault

/-- A fault right before the rest. -/
def before (cause : Cause) (rest : List Char) : Fault := ⟨cause, rest, 0⟩

/-- A fault at the first byte of the rest, or at the end of the text. -/
def atByte (cause : Cause) (rest : List Char) : Fault := ⟨cause, rest, if rest.isEmpty then 0 else 1⟩

end Fault

/-- A line, counted from one, and the bytes before a place on it. -/
structure Place where
  line : Nat
  column : Nat
  deriving DecidableEq, Repr

/-- The place that is `bytes` bytes after `p`. -/
def Place.advance (p : Place) : List Char → Nat → Place
  | _, 0 => p
  | [], _ => p
  | c :: cs, bytes =>
    if bytes < c.utf8Size then ⟨p.line, p.column + bytes⟩
    else if c = '\n' then Place.advance ⟨p.line + 1, 0⟩ cs (bytes - c.utf8Size)
    else Place.advance ⟨p.line, p.column + c.utf8Size⟩ cs (bytes - c.utf8Size)

namespace Fault

/-- The place of a fault in the text that was read. -/
def place (f : Fault) (text : List Char) : Place :=
  Place.advance ⟨1, 0⟩ text (Text.byteLength text - Text.byteLength f.rest + f.bytes)

end Fault

/-- Why and where a text is refused. -/
structure Refusal where
  cause : Cause
  place : Place

def Refusal.message (r : Refusal) : String :=
  r.cause.message ++ " at line " ++ toString r.place.line ++ " column " ++ toString r.place.column

/-- A fault in the text that was read. -/
def Fault.locate (f : Fault) (text : List Char) : Refusal := ⟨f.cause, f.place text⟩

end TagLint.Json

import TagLint.Coord
import TagLint.Decimal.Shortest
import TagLint.Json.Value
import TagLint.Text.Quoted

/-!
# Mismatches — a JSON value that is not of the expected shape

The readers of this module take a value apart and say what they expected when it has another shape.
-/

namespace TagLint.Json

/-- Why a value does not have the expected shape. -/
inductive Mismatch
  /-- A value of another type. -/
  | type (found : Json) (expected : String)
  /-- A value of the right type outside the expected range. -/
  | value (found : Json) (expected : String)
  /-- A list of the wrong length. -/
  | length (found : Nat) (expected : String)
  | missingField (name : String)
  | duplicateField (name : String)
  /-- A name that is not one of the known ones. -/
  | unknownVariant (name : String) (known : List String)
  /-- None of the alternatives of the named choice fits. -/
  | noVariant (choice : String)

/-- Doubles stand positionally from `10 ^ -5` to below `10 ^ 16`, otherwise with an exponent and its sign. -/
def doubleText (x : Binary64) : String :=
  let sign := if x.negative then "-" else ""
  if x.magnitude = 0 then sign ++ "0.0"
  else
    let d := Decimal.shortest x.magnitude
    let ds := Nat.toDigits 10 d.digits
    let body : List Char :=
      if -5 ≤ d.exponent ∧ d.exponent < 16 then Decimal.positional d
      else
        ds.take 1 ++ (if ds.length = 1 then [] else '.' :: ds.drop 1)
          ++ ['e', if d.exponent < 0 then '-' else '+'] ++ Nat.toDigits 10 d.exponent.natAbs
    sign ++ String.ofList body

/-- A value as it is named in a message. -/
def describe : Json → String
  | .null => "null"
  | .bool b => "boolean `" ++ (if b then "true" else "false") ++ "`"
  | .number (.natural n) => "integer `" ++ toString n ++ "`"
  | .number (.negative n) => "integer `-" ++ toString n ++ "`"
  | .number (.double x) => "floating point `" ++ doubleText x ++ "`"
  | .string s => "string " ++ Text.quote s
  | .array _ => "sequence"
  | .object _ => "map"

/-- The known names of a choice as a message lists them. -/
def oneOf : List String → String
  | [a] => "`" ++ a ++ "`"
  | [a, b] => "`" ++ a ++ "` or `" ++ b ++ "`"
  | names => "one of " ++ String.intercalate ", " (names.map fun n => "`" ++ n ++ "`")

def Mismatch.message : Mismatch → String
  | .type found expected => "invalid type: " ++ describe found ++ ", expected " ++ expected
  | .value found expected => "invalid value: " ++ describe found ++ ", expected " ++ expected
  | .length found expected => "invalid length " ++ toString found ++ ", expected " ++ expected
  | .missingField name => "missing field `" ++ name ++ "`"
  | .duplicateField name => "duplicate field `" ++ name ++ "`"
  | .unknownVariant name known => "unknown variant `" ++ name ++ "`, expected " ++ oneOf known
  | .noVariant choice => "data did not match any variant of untagged enum " ++ choice

/-! ## Readers -/

def asString : Json → Except Mismatch String
  | .string s => .ok s
  | j => .error (.type j "a string")

def asBool : Json → Except Mismatch Bool
  | .bool b => .ok b
  | j => .error (.type j "a boolean")

/-- A 32-bit count, written as an integer. -/
def asCoord : Json → Except Mismatch Coord
  | .number (.natural n) =>
    if n < UInt32.size then .ok (UInt32.ofNat n) else .error (.value (.number (.natural n)) "u32")
  | .number (.negative n) => .error (.value (.number (.negative n)) "u32")
  | j => .error (.type j "u32")

def asItems : Json → Except Mismatch (List Json)
  | .array items => .ok items
  | j => .error (.type j "a sequence")

/-- A list whose items are all read by `item`. -/
def asListOf {α : Type} (item : Json → Except Mismatch α) (j : Json) : Except Mismatch (List α) := do
  (← asItems j).mapM item

/-- `null`, or a value read by `some`. -/
def asOptional {α : Type} (read : Json → Except Mismatch α) : Json → Except Mismatch (Option α)
  | .null => .ok none
  | j => (read j).map some

/-- Read a field into its slot; a slot is filled once. -/
def fill {α : Type} (name : String) (slot : Option α) (read : Json → Except Mismatch α) (j : Json) :
    Except Mismatch (Option α) :=
  if slot.isSome then .error (.duplicateField name) else (read j).map some

/-- The content of a slot that has to be filled. -/
def need {α : Type} (name : String) : Option α → Except Mismatch α
  | some a => .ok a
  | none => .error (.missingField name)

/-! ## Records written as lists -/

/-- The next item of a list of fields that needs one; `count` items come before it. -/
def nextField {α : Type} (count : Nat) (record : String) (read : Json → Except Mismatch α) :
    List Json → Except Mismatch (α × List Json)
  | [] => .error (.length count record)
  | j :: js => (read j).map fun a => (a, js)

/-- The next item of a list of fields, or the default. -/
def nextFieldOr {α : Type} (default : α) (read : Json → Except Mismatch α) :
    List Json → Except Mismatch (α × List Json)
  | [] => .ok (default, [])
  | j :: js => (read j).map fun a => (a, js)

/-- No item is left after the first `count`. -/
def noMoreFields (count : Nat) : List Json → Except Mismatch Unit
  | [] => .ok ()
  | js => .error (.length (count + js.length)
      (toString count ++ (if count = 1 then " element" else " elements") ++ " in sequence"))

end TagLint.Json

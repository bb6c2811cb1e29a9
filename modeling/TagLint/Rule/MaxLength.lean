import TagLint.Finding
import TagLint.Rule.Error
import TagLint.Rule.Option
import TagLint.Tag.Event

/-!
# The length rule — no event that begins past a column

The option is a positive integer, or an object with the limit and the line on which findings are reported.
-/

namespace TagLint

/-- The line on which an overlong line is reported. -/
inductive LineAnchor
  /-- The line of the event. -/
  | event
  /-- The line above it. -/
  | previous
  deriving DecidableEq, Repr

namespace LineAnchor

def name : LineAnchor → String
  | .event => "event"
  | .previous => "previous"

def all : List LineAnchor := [.event, .previous]

open Json in
def ofName (s : String) : Except Mismatch LineAnchor :=
  match all.find? (·.name == s) with
  | some anchor => .ok anchor
  | none => .error (.unknownVariant s (all.map name))

open Json in
/-- An anchor by its name, or as an object with its name as the only key. -/
def ofJson : Json → Except Mismatch LineAnchor
  | .string s => ofName s
  | .object [(key, value)] => do
    let anchor ← ofName key
    match value with
    | .null => return anchor
    | j => throw (.type j "unit")
  | .object members => .error (.value (.object members) "map with a single key")
  | j => .error (.type j "string or map")

end LineAnchor

/-- The limit of the length rule. -/
structure MaxLength where
  max : Coord
  anchor : LineAnchor
  deriving DecidableEq, Repr

namespace MaxLength

/-- The id of the rule. -/
def ruleId : String := "max-length"

/-- The fields of an option read so far. -/
structure Fields where
  max : Option Coord := none
  line : Option LineAnchor := none

open Json in
def Fields.read (fields : Fields) : String × Json → Except Mismatch Fields
  | ("max", j) => return { fields with max := ← fill "max" fields.max asCoord j }
  | ("line", j) => return { fields with line := ← fill "line" fields.line LineAnchor.ofJson j }
  | _ => return fields

open Json in
def ofMembers (members : List (String × Json)) : Except Mismatch MaxLength := do
  let fields ← members.foldlM Fields.read {}
  return ⟨← need "max" fields.max, fields.line.getD .event⟩

/-- The limit that an option sets, if it sets one. -/
def ofOption (option : RuleOption) : Except RuleError (Option MaxLength) :=
  match option.positiveInt?, option.object? with
  | some max, _ => .ok (some ⟨max, .event⟩)
  | none, none => .ok none
  | none, some members =>
    match ofMembers members with
    | .error m => .error (.limit ruleId (.mismatch m))
    | .ok limit => if limit.max = 0 then .error (.limit ruleId .zero) else .ok (some limit)

/-- What an event violates. -/
def check (limit : MaxLength) (event : Event) : List Finding :=
  if event.col ≤ limit.max then []
  else
    let line := match limit.anchor with
      | .event => event.line
      | .previous => .satPred event.line
    [.error ruleId ("Line exceeds the maximum length of " ++ toString limit.max.toNat ++ " characters.") line
      event.col event.raw]

end MaxLength

end TagLint

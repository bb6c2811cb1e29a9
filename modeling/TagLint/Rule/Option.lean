import TagLint.Json.Reader

/-!
# Rule options — what a configuration says about one rule

An option is kept as it was written; each rule interprets its own.
-/

namespace TagLint

/-- The value that a configuration assigns to a rule. -/
inductive RuleOption
  | bool (enabled : Bool)
  | number (n : Json.Number)
  /-- The members of an object in canonical form. -/
  | object (members : List (String × Json))
  /-- A string, a list or `null`. -/
  | other (value : Json)
  deriving Repr, Inhabited

namespace RuleOption

/-- The option that a canonical value stands for. -/
def ofValue : Json → RuleOption
  | .bool b => .bool b
  | .number n => .number n
  | .object members => .object members
  | .null => .other .null
  | .string s => .other (.string s)
  | .array items => .other (.array items)

/-- The option in a text as written: the first of truth value, number, object and any value that fits. -/
def ofWritten (j : Json) : RuleOption :=
  match j with
  | .bool b => .bool b
  | .number n => .number n
  | .object members => .object (Json.canonicalObject members)
  | j => .other j.canonical

/-- Whether the option turns its rule on: not `false`, zero, negative or `null`. -/
def isEnabled : RuleOption → Bool
  | .bool enabled => enabled
  | .number n => n.isPositive
  | .object _ => true
  | .other .null => false
  | .other _ => true

/-- The option as a positive 32-bit integer. -/
def positiveInt? : RuleOption → Option Coord
  | .number (.natural n) => if 0 < n ∧ n < UInt32.size then some (UInt32.ofNat n) else none
  | _ => none

/-- The members of an option that is an object. -/
def object? : RuleOption → Option (List (String × Json))
  | .object members => some members
  | _ => none

/-- The canonical value of an option. -/
def toValue : RuleOption → Json
  | .bool b => .bool b
  | .number n => .number n
  | .object members => .object members
  | .other value => value

/-- The option in a text that holds one value. -/
def parse (text : String) : Except Json.Refusal RuleOption := (Json.parse text).map ofWritten

end RuleOption

end TagLint

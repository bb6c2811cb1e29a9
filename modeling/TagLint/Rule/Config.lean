import TagLint.Json.Comment
import TagLint.Rule.Option

/-!
# Rule configurations — which rules run, and with what options

A configuration maps rule ids to options.  Configurations are laid over each other rule by rule: an option is
replaced as a whole, never merged.
-/

namespace TagLint

/-- Options by rule id. -/
abbrev RuleConfig := SortedMap String RuleOption

namespace RuleConfig

/-- The configuration that every other one is laid over. -/
def defaults : RuleConfig :=
  .ofList [("tags-check", .bool true), ("attr-no-duplication", .bool true), ("max-length", .bool false)]

/-- Every option of `overrides` replaces the option of the same rule. -/
def overlay (base overrides : RuleConfig) : RuleConfig := SortedMap.override base overrides

/-- Whether a rule is configured and turned on. -/
def isEnabled (config : RuleConfig) (id : String) : Bool :=
  match config.get? id with
  | some option => option.isEnabled
  | none => false

/-- The configuration that the members of an object stand for. -/
def ofMembers (members : List (String × Json)) : RuleConfig :=
  .ofList (members.map fun m => (m.1, .ofWritten m.2))

/-- The configuration in a JSON text without comments. -/
def read (text : List Char) : Except Json.Fault RuleConfig := (Json.readObject text).map ofMembers

/-- A text that is no rule configuration. -/
structure ParseError where
  refusal : Json.Refusal

/-- The error as it stands in messages. -/
def ParseError.message (e : ParseError) : String :=
  "Failed to parse rule configuration JSON: " ++ e.refusal.message

/-- The configuration in a JSON text with comments.  Errors have their place in the text without comments. -/
def parse (text : String) : Except ParseError RuleConfig :=
  let stripped := Json.stripComments text.toList
  (read stripped).mapError fun f => ⟨f.locate stripped⟩

end RuleConfig

end TagLint

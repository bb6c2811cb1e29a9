import TagLint.Log
import TagLint.Rule.AttrNoDuplication
import TagLint.Rule.Config
import TagLint.Rule.MaxLength
import TagLint.Rule.TagsCheck

/-!
# Validators — the rules of a configuration, run over a stream of events

A rule turns one event into findings; it may also break down, which ends the run.  Findings are ordered by event,
then by rule, and rules run in a fixed order whatever the order of the configuration.
-/

namespace TagLint

/-- What a rule or a maker of validators leaves behind when it breaks down. -/
inductive Crash
  | text (message : String)
  /-- Nothing that could be shown. -/
  | silent
  deriving DecidableEq, Repr

/-- A check of single events. -/
structure Rule where
  id : String
  check : Event → Except Crash (List Finding)

/-- A rule that never breaks down. -/
def Rule.total (id : String) (check : Event → List Finding) : Rule := ⟨id, fun event => .ok (check event)⟩

/-- Rules in the order in which they run. -/
structure Validator where
  rules : List Rule

namespace Validator

def ruleIds (v : Validator) : List String := v.rules.map (·.id)

/-- What the rules find on one event. -/
def checkEvent (v : Validator) (event : Event) : Except Crash (List Finding) :=
  (v.rules.mapM fun (rule : Rule) => rule.check event).map List.flatten

/-- What the rules find on a stream of events. -/
def validate (v : Validator) (events : List Event) : Except Crash (List Finding) :=
  (events.mapM v.checkEvent).map List.flatten

/-! ## Validators of a configuration -/

/-- The rules that a configuration can turn on. -/
def knownRules : List String := [TagsCheck.ruleId, AttrNoDuplication.ruleId, MaxLength.ruleId]

/-- The option of a rule that is turned on. -/
def enabledOption? (config : RuleConfig) (id : String) : Option RuleOption :=
  (config.get? id).filter (·.isEnabled)

/-- The tag rule of a configuration. -/
def tagsCheck (config : RuleConfig) : Except RuleError (List Rule) :=
  match enabledOption? config TagsCheck.ruleId with
  | none => .ok []
  | some option => (TagsCheck.specsOf option).map fun specs => [.total TagsCheck.ruleId (TagsCheck.check specs)]

/-- The duplication rule of a configuration. -/
def attrNoDuplication (config : RuleConfig) : List Rule :=
  if config.isEnabled AttrNoDuplication.ruleId then
    [.total AttrNoDuplication.ruleId AttrNoDuplication.check]
  else []

/-- The length rule of a configuration. -/
def maxLength (config : RuleConfig) : Except RuleError (List Rule) :=
  match enabledOption? config MaxLength.ruleId with
  | none => .ok []
  | some option =>
    (MaxLength.ofOption option).map fun limit? => limit?.toList.map fun limit => .total MaxLength.ruleId limit.check

/-- The validator of a configuration. -/
def ofConfig (config : RuleConfig) : Except RuleError Validator := do
  let tags ← tagsCheck config
  let limit ← maxLength config
  return ⟨tags ++ attrNoDuplication config ++ limit⟩

/-! ## Messages -/

/-- A message for every rule that is turned on but not known, in the order of the configuration. -/
def unknownRuleLog (config : RuleConfig) : List LogEntry :=
  (config.entries.filter fun e => e.2.isEnabled && !knownRules.contains e.1).map fun e =>
    ⟨.debug, "Ignoring unknown rule '" ++ e.1 ++ "'"⟩

/-- The number of overridden tags, when the tag rule has an object for its option. -/
def overrideLog (config : RuleConfig) : List LogEntry :=
  match (enabledOption? config TagsCheck.ruleId).bind TagsCheck.overrideCount? with
  | some n => [⟨.debug, "Merging " ++ toString n ++ " tag spec overrides"⟩]
  | none => []

/-- A length rule that is turned on without a limit. -/
def noLimitLog (config : RuleConfig) : List LogEntry :=
  match (enabledOption? config MaxLength.ruleId).map MaxLength.ofOption with
  | some (.ok none) => [⟨.debug, "max-length enabled without a limit, skipping"⟩]
  | _ => []

/-- The validator of a configuration, with what is reported while it is made. -/
def build (config : RuleConfig) : Logged (Except RuleError Validator) :=
  let result := ofConfig config
  let tagsLog := match tagsCheck config with
    | .ok _ => overrideLog config ++ noLimitLog config
    | .error _ => []
  let endLog := match result with
    | .ok v => [⟨.debug, "Built validator with rules " ++ Text.quoteList v.ruleIds⟩]
    | .error _ => []
  ⟨result, unknownRuleLog config ++ tagsLog ++ endLog⟩

end Validator

end TagLint

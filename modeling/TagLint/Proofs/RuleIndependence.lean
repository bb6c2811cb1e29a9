import TagLint.Proofs.AttributePlaces
import TagLint.Proofs.TagOverrides
import TagLint.Validator

/-!
# Independent rules — what turning one rule off changes

* `Rule.Sound`: a rule that never breaks down and reports under its own id only.  For validators of such rules,
  dropping a rule (`without`) is dropping its findings (`validate_without`).
* `Enabled config rule`: the rules that a configuration can give rise to.  `FoundOn` says where their findings stand.
* `ofConfig_insert_false`: a configuration with one rule turned off has the validator without that rule.

`rules_independent` puts these together for a stream of events.
-/

namespace TagLint

/-! ## Labels -/

/-- Of members under one label, other labels leave all and their own leaves none. -/
theorem filter_label_ne {β : Type} {l : List β} {label : β → String} {own : String} (h : ∀ b ∈ l, label b = own)
    (id : String) : l.filter (fun b => label b ≠ id) = if own = id then [] else l := by
  split_ifs with hid
  · exact List.filter_eq_nil_iff.mpr fun b hb => by simpa [h b hb] using hid
  · exact List.filter_eq_self.mpr fun b hb => by simpa [h b hb] using hid

/-- Where the members of each list carry its label, keeping the members of other labels is keeping the other lists. -/
theorem filter_flatMap_label_ne {α β : Type} {l : List α} {g : α → List β} {label : β → String} {own : α → String}
    (h : ∀ a ∈ l, ∀ b ∈ g a, label b = own a) (id : String) :
    (l.flatMap g).filter (fun b => label b ≠ id) = (l.filter fun a => own a ≠ id).flatMap g := by
  induction l with
  | nil => rfl
  | cons a l ih =>
    obtain ⟨ha, hl⟩ := List.forall_mem_cons.mp h
    rw [List.flatMap_cons, List.filter_append, ih hl, filter_label_ne ha, List.filter_cons]
    by_cases hid : own a = id <;> simp [hid]

/-! ## Rules that answer under their own id -/

/-- What a rule finds on an event; nothing if it breaks down. -/
def Rule.found (rule : Rule) (event : Event) : List Finding := (rule.check event).toOption.getD []

/-- A rule that answers on every event, and under its own id only. -/
structure Rule.Sound (rule : Rule) : Prop where
  answers : ∀ event, rule.check event = .ok (rule.found event)
  own : ∀ event, ∀ f ∈ rule.found event, f.ruleId = rule.id

namespace Validator

/-- What the rules find on an event. -/
def found (v : Validator) (event : Event) : List Finding := v.rules.flatMap fun rule => rule.found event

/-- The validator without the rules of an id. -/
def without (v : Validator) (id : String) : Validator := ⟨v.rules.filter fun rule => rule.id ≠ id⟩

/-- The place of the rule of a finding in the order in which rules run. -/
def place (f : Finding) : Nat := knownRules.idxOf f.ruleId

section

variable {v : Validator} (hv : ∀ rule ∈ v.rules, rule.Sound)

include hv

theorem checkEvent_of_sound (event : Event) : v.checkEvent event = .ok (v.found event) := by
  have hrules : v.rules.mapM (fun rule => rule.check event) = .ok (v.rules.map fun rule => rule.found event) := by
    rw [mapM_eq_ok_iff, List.forall₂_map_right_iff, List.forall₂_same]
    exact fun rule hrule => (hv rule hrule).answers event
  rw [checkEvent, hrules, found, List.flatMap_def]
  rfl

theorem validate_of_sound (events : List Event) : v.validate events = .ok (events.map v.found).flatten := by
  have hevents : events.mapM v.checkEvent = .ok (events.map v.found) := by
    rw [mapM_eq_ok_iff, List.forall₂_map_right_iff, List.forall₂_same]
    exact fun event _ => checkEvent_of_sound hv event
  rw [validate, hevents]
  rfl

theorem sound_without (id : String) : ∀ rule ∈ (v.without id).rules, rule.Sound := fun rule hrule =>
  hv rule (List.mem_filter.mp hrule).1

/-- The findings of one rule are those under its id. -/
theorem found_without (id : String) (event : Event) :
    (v.without id).found event = (v.found event).filter fun f => f.ruleId ≠ id :=
  (filter_flatMap_label_ne (fun rule hrule => (hv rule hrule).own event) id).symm

/-- Dropping a rule drops its findings, and keeps the order of the others. -/
theorem validate_without (id : String) (events : List Event) :
    (v.without id).validate events = .ok ((events.map v.found).flatten.filter fun f => f.ruleId ≠ id) := by
  rw [validate_of_sound (sound_without hv id), List.filter_flatten, List.map_map]
  congr 2
  exact List.map_congr_left fun event _ => found_without hv id event

/-- Rules in the fixed order report in that order. -/
theorem pairwise_place_found (hids : v.ruleIds.Sublist knownRules) (event : Event) :
    (v.found event).Pairwise fun f g => place f ≤ place g := by
  have hknown : knownRules.Pairwise fun a b => knownRules.idxOf a ≤ knownRules.idxOf b := by decide
  have hrules := List.pairwise_map.mp (hknown.sublist hids)
  refine List.pairwise_flatMap.mpr ⟨fun rule hrule => ?_, ?_⟩
  · have hown := (hv rule hrule).own event
    refine List.pairwise_of_forall_mem_list fun f hf g hg => ?_
    rw [place, place, hown f hf, hown g hg]
  · refine hrules.imp_of_mem fun {a b} ha hb hab f hf g hg => ?_
    rw [place, place, (hv a ha).own event f hf, (hv b hb).own event g hg]
    exact hab

end

/-! ## Where the rules report -/

/-- A finding about a tag under a rule id, at the tag or at one of its attributes. -/
inductive AtTag (id : String) (tag : OpenTag) : Finding → Prop
  | tag (message : String) : AtTag id tag (.error id message tag.line tag.col tag.raw)
  | attr (message : String) {attr : Attribute} (hattr : attr ∈ tag.attrs) :
      AtTag id tag (.error id message tag.line (tag.attrCol attr) tag.raw)

theorem atTag_of_mem_closingFindings {tag : OpenTag} {policy : ClosingPolicy} {f : Finding}
    (hf : f ∈ TagsCheck.closingFindings tag policy) : AtTag TagsCheck.ruleId tag f := by
  unfold TagsCheck.closingFindings at hf
  split at hf
  · split_ifs at hf
    · cases hf
    · exact List.mem_singleton.mp hf ▸ .tag _
  · split_ifs at hf
    · exact List.mem_singleton.mp hf ▸ .tag _
    · cases hf
  · cases hf

theorem atTag_of_mem_tagsCheck {specs : TagSpecs} {event : Event} {f : Finding} (hf : f ∈ TagsCheck.check specs event) :
    ∃ tag, event = .openTag tag ∧ AtTag TagsCheck.ruleId tag f := by
  cases event with
  | openTag tag =>
    refine ⟨tag, rfl, ?_⟩
    obtain ⟨spec, -, hf | ⟨r, -, hf⟩ | ⟨r, -, hf⟩ | ⟨name, -, hf⟩⟩ := mem_tagsCheck_iff.mp hf
    · exact atTag_of_mem_closingFindings hf
    · obtain ⟨name, -, rfl⟩ | ⟨attr, hattr, allowed, -, -, rfl⟩ := mem_requiredFindings_iff.mp hf
      · exact .tag _
      · exact .attr _ hattr
    · obtain ⟨attr, hattr, allowed, -, -, rfl⟩ := mem_optionalFindings_iff.mp hf
      exact .attr _ hattr
    · obtain ⟨earlier, attr, later, hattrs, -, -, rfl⟩ := mem_redundantFindings_iff.mp hf
      exact .attr _ (hattrs ▸ List.mem_append_right earlier List.mem_cons_self)
  | text | comment | cdata | closeTag => cases hf

theorem atTag_of_mem_attrNoDuplication {event : Event} {f : Finding} (hf : f ∈ AttrNoDuplication.check event) :
    ∃ tag, event = .openTag tag ∧ AtTag AttrNoDuplication.ruleId tag f := by
  cases event with
  | openTag tag =>
    obtain ⟨-, earlier, attr, later, hattrs, -, rfl⟩ := mem_attrNoDuplication_iff.mp hf
    exact ⟨tag, rfl, .attr _ (hattrs ▸ List.mem_append_right earlier List.mem_cons_self)⟩
  | text | comment | cdata | closeTag => cases hf

/-- An overlong line is reported at the event, on the line that the limit is anchored to. -/
theorem eq_of_mem_maxLength {limit : MaxLength} {event : Event} {f : Finding} (hf : f ∈ limit.check event) :
    f = .error MaxLength.ruleId ("Line exceeds the maximum length of " ++ toString limit.max.toNat ++ " characters.")
      (if limit.anchor = .previous then .satPred event.line else event.line) event.col event.raw := by
  unfold MaxLength.check at hf
  split_ifs at hf
  · cases hf
  · rw [List.mem_singleton.mp hf]
    cases limit.anchor <;> rfl

/-! ## The rules of a configuration -/

/-- The rules that a configuration can give rise to. -/
inductive Enabled (config : RuleConfig) : Rule → Prop
  | tagsCheck {option : RuleOption} {specs : TagSpecs} (hoption : enabledOption? config TagsCheck.ruleId = some option)
      (hspecs : TagsCheck.specsOf option = .ok specs) :
      Enabled config (.total TagsCheck.ruleId (TagsCheck.check specs))
  | attrNoDuplication (hon : config.isEnabled AttrNoDuplication.ruleId) :
      Enabled config (.total AttrNoDuplication.ruleId AttrNoDuplication.check)
  | maxLength {option : RuleOption} {limit : MaxLength}
      (hoption : enabledOption? config MaxLength.ruleId = some option)
      (hlimit : MaxLength.ofOption option = .ok (some limit)) :
      Enabled config (.total MaxLength.ruleId limit.check)

/-- The line on which overlong lines are reported. -/
def lengthAnchor? (config : RuleConfig) : Option LineAnchor :=
  match (enabledOption? config MaxLength.ruleId).map MaxLength.ofOption with
  | some (.ok (some limit)) => some limit.anchor
  | _ => none

/-- A finding of a validator of `config` on an event: whose it is and where it stands. -/
structure FoundOn (config : RuleConfig) (v : Validator) (event : Event) (f : Finding) : Prop where
  ruleId : f.ruleId ∈ v.ruleIds
  raw : f.raw = event.raw
  line : f.line = if f.ruleId = MaxLength.ruleId ∧ lengthAnchor? config = some .previous then .satPred event.line
    else event.line
  col : f.col = event.col ∨
    (f.ruleId = TagsCheck.ruleId ∨ f.ruleId = AttrNoDuplication.ruleId) ∧
      ∃ tag, event = .openTag tag ∧ ∃ attr ∈ tag.attrs, f.col = .satAdd event.col attr.offset

section

variable {config : RuleConfig} {v : Validator}

theorem AtTag.foundOn {id : String} {tag : OpenTag} {f : Finding} (h : AtTag id tag f)
    (hid : id = TagsCheck.ruleId ∨ id = AttrNoDuplication.ruleId) (hmem : id ∈ v.ruleIds) :
    FoundOn config v (.openTag tag) f := by
  have hlength : id ≠ MaxLength.ruleId := by
    rcases hid with rfl | rfl <;> decide
  cases h with
  | tag message => exact ⟨hmem, rfl, (if_neg fun h => hlength h.1).symm, .inl rfl⟩
  | attr message hattr =>
    exact ⟨hmem, rfl, (if_neg fun h => hlength h.1).symm, .inr ⟨hid, tag, rfl, _, hattr, rfl⟩⟩

theorem Enabled.ruleId_eq {rule : Rule} (h : Enabled config rule) {event : Event} {f : Finding}
    (hf : f ∈ rule.found event) : f.ruleId = rule.id := by
  cases h with
  | tagsCheck =>
    obtain ⟨tag, -, h⟩ := atTag_of_mem_tagsCheck hf
    cases h <;> rfl
  | attrNoDuplication =>
    obtain ⟨tag, -, h⟩ := atTag_of_mem_attrNoDuplication hf
    cases h <;> rfl
  | maxLength => rw [eq_of_mem_maxLength hf]; rfl

theorem Enabled.sound {rule : Rule} (h : Enabled config rule) : rule.Sound where
  answers event := by cases h <;> rfl
  own _ _ := h.ruleId_eq

theorem Enabled.foundOn {rule : Rule} (h : Enabled config rule) (hrule : rule ∈ v.rules) {event : Event} {f : Finding}
    (hf : f ∈ rule.found event) : FoundOn config v event f := by
  have hmem : rule.id ∈ v.ruleIds := List.mem_map_of_mem hrule
  cases h with
  | tagsCheck =>
    obtain ⟨tag, rfl, h⟩ := atTag_of_mem_tagsCheck hf
    exact h.foundOn (.inl rfl) hmem
  | attrNoDuplication =>
    obtain ⟨tag, rfl, h⟩ := atTag_of_mem_attrNoDuplication hf
    exact h.foundOn (.inr rfl) hmem
  | @maxLength option limit hoption hlimit =>
    have hanchor : lengthAnchor? config = some limit.anchor := by
      rw [lengthAnchor?, hoption, Option.map_some, hlimit]
    obtain rfl := eq_of_mem_maxLength hf
    refine ⟨hmem, rfl, ?_, .inl rfl⟩
    simp [Finding.error, hanchor]

/-! ## Turning a rule off -/

theorem tagsCheck_eq_ok_iff {rules : List Rule} :
    tagsCheck config = .ok rules ↔ (enabledOption? config TagsCheck.ruleId = none ∧ rules = []) ∨
      ∃ option specs, enabledOption? config TagsCheck.ruleId = some option ∧ TagsCheck.specsOf option = .ok specs ∧
        rules = [.total TagsCheck.ruleId (TagsCheck.check specs)] := by
  unfold tagsCheck
  cases enabledOption? config TagsCheck.ruleId with
  | none => simp [eq_comm]
  | some option => cases h : TagsCheck.specsOf option <;> simp [h, Except.map, eq_comm]

theorem maxLength_eq_ok_iff {rules : List Rule} :
    maxLength config = .ok rules ↔ (enabledOption? config MaxLength.ruleId = none ∧ rules = []) ∨
      ∃ option limit?, enabledOption? config MaxLength.ruleId = some option ∧
        MaxLength.ofOption option = .ok limit? ∧
        rules = limit?.toList.map fun limit => .total MaxLength.ruleId limit.check := by
  unfold maxLength
  cases enabledOption? config MaxLength.ruleId with
  | none => simp [eq_comm]
  | some option => cases h : MaxLength.ofOption option <;> simp [h, Except.map, eq_comm]

theorem ofConfig_eq_ok_iff : ofConfig config = .ok v ↔ ∃ tags limit, tagsCheck config = .ok tags ∧
    maxLength config = .ok limit ∧ v = ⟨tags ++ attrNoDuplication config ++ limit⟩ := by
  unfold ofConfig
  simp only [bind_eq_ok_iff]
  constructor
  · rintro ⟨tags, htags, limit, hlimit, h⟩
    exact ⟨tags, limit, htags, hlimit, (Except.ok.inj h).symm⟩
  · rintro ⟨tags, limit, htags, hlimit, rfl⟩
    exact ⟨tags, htags, limit, hlimit, rfl⟩

/-- Every rule of a validator is one that the configuration gives rise to. -/
theorem enabled_of_mem (h : ofConfig config = .ok v) {rule : Rule} (hrule : rule ∈ v.rules) : Enabled config rule := by
  obtain ⟨tags, limit, htags, hlimit, rfl⟩ := ofConfig_eq_ok_iff.mp h
  rcases List.mem_append.mp hrule with hrule | hrule
  · rcases List.mem_append.mp hrule with hrule | hrule
    · obtain ⟨-, rfl⟩ | ⟨option, specs, hoption, hspecs, rfl⟩ := tagsCheck_eq_ok_iff.mp htags
      · cases hrule
      · exact List.mem_singleton.mp hrule ▸ .tagsCheck hoption hspecs
    · unfold attrNoDuplication at hrule
      split_ifs at hrule with hon
      · exact List.mem_singleton.mp hrule ▸ .attrNoDuplication hon
      · cases hrule
  · obtain ⟨-, rfl⟩ | ⟨option, limit?, hoption, hread, rfl⟩ := maxLength_eq_ok_iff.mp hlimit
    · cases hrule
    · obtain ⟨limit, hsome, rfl⟩ := List.mem_map.mp hrule
      rw [Option.mem_toList.mp hsome] at hread
      exact .maxLength hoption hread

/-- The rules of a validator run in the fixed order, each at most once. -/
theorem ruleIds_sublist (h : ofConfig config = .ok v) : v.ruleIds.Sublist knownRules := by
  obtain ⟨tags, limit, htags, hlimit, rfl⟩ := ofConfig_eq_ok_iff.mp h
  have htags : (tags.map (·.id)).Sublist [TagsCheck.ruleId] := by
    obtain ⟨-, rfl⟩ | ⟨option, specs, -, -, rfl⟩ := tagsCheck_eq_ok_iff.mp htags
    · exact List.nil_sublist _
    · exact List.Sublist.refl _
  have hduplication : ((attrNoDuplication config).map (·.id)).Sublist [AttrNoDuplication.ruleId] := by
    unfold attrNoDuplication
    split_ifs
    · exact List.Sublist.refl _
    · exact List.nil_sublist _
  have hlimit : (limit.map (·.id)).Sublist [MaxLength.ruleId] := by
    obtain ⟨-, rfl⟩ | ⟨option, _ | limit, -, -, rfl⟩ := maxLength_eq_ok_iff.mp hlimit
    · exact List.nil_sublist _
    · exact List.nil_sublist _
    · exact List.Sublist.refl _
  rw [ruleIds, List.map_append, List.map_append]
  exact (htags.append hduplication).append hlimit

theorem enabledOption?_insert_false (config : RuleConfig) (id id' : String) :
    enabledOption? (config.insert id (.bool false)) id' = if id' = id then none else enabledOption? config id' := by
  rw [enabledOption?, SortedMap.get?_insert]
  split_ifs <;> rfl

theorem isEnabled_eq_isSome (config : RuleConfig) (id : String) :
    config.isEnabled id = (enabledOption? config id).isSome := by
  unfold RuleConfig.isEnabled enabledOption?
  cases config.get? id with
  | none => rfl
  | some option => cases h : option.isEnabled <;> simp [h]

theorem tagsCheck_insert_false {rules : List Rule} (h : tagsCheck config = .ok rules) (id : String) :
    tagsCheck (config.insert id (.bool false)) = .ok (rules.filter fun rule => rule.id ≠ id) := by
  have hids : ∀ rule ∈ rules, rule.id = TagsCheck.ruleId := by
    obtain ⟨-, rfl⟩ | ⟨option, specs, -, -, rfl⟩ := tagsCheck_eq_ok_iff.mp h <;> simp [Rule.total]
  rw [filter_label_ne hids, tagsCheck, enabledOption?_insert_false]
  split_ifs
  · rfl
  · exact h

theorem attrNoDuplication_insert_false (config : RuleConfig) (id : String) :
    attrNoDuplication (config.insert id (.bool false)) =
      (attrNoDuplication config).filter fun rule => rule.id ≠ id := by
  have hids : ∀ rule ∈ attrNoDuplication config, rule.id = AttrNoDuplication.ruleId := by
    unfold attrNoDuplication
    split_ifs <;> simp [Rule.total]
  rw [filter_label_ne hids, attrNoDuplication, isEnabled_eq_isSome, enabledOption?_insert_false]
  split_ifs with hid hon hon
  · cases hon
  · rfl
  · rw [attrNoDuplication, isEnabled_eq_isSome, if_pos hon]
  · rw [attrNoDuplication, isEnabled_eq_isSome, if_neg hon]

theorem maxLength_insert_false {rules : List Rule} (h : maxLength config = .ok rules) (id : String) :
    maxLength (config.insert id (.bool false)) = .ok (rules.filter fun rule => rule.id ≠ id) := by
  have hids : ∀ rule ∈ rules, rule.id = MaxLength.ruleId := by
    obtain ⟨-, rfl⟩ | ⟨option, limit?, -, -, rfl⟩ := maxLength_eq_ok_iff.mp h <;> simp [Rule.total]
  rw [filter_label_ne hids, maxLength, enabledOption?_insert_false]
  split_ifs
  · rfl
  · exact h

/-- A configuration with a rule turned off has the validator without that rule. -/
theorem ofConfig_insert_false (h : ofConfig config = .ok v) (id : String) :
    ofConfig (config.insert id (.bool false)) = .ok (v.without id) := by
  obtain ⟨tags, limit, htags, hlimit, rfl⟩ := ofConfig_eq_ok_iff.mp h
  refine ofConfig_eq_ok_iff.mpr
    ⟨_, _, tagsCheck_insert_false htags id, maxLength_insert_false hlimit id, ?_⟩
  rw [without, attrNoDuplication_insert_false, List.filter_append, List.filter_append]

end

/-- **Rules are independent.**  A validator groups its findings by event and, within an event, by rule; each stands
where `FoundOn` says.  Turning one rule off keeps the configuration valid and removes the findings of that rule. -/
theorem rules_independent {config : RuleConfig} {v : Validator} (h : ofConfig config = .ok v) (events : List Event) :
    v.ruleIds.Sublist knownRules ∧
    ∃ groups : List (List Finding), v.validate events = .ok groups.flatten ∧
      List.Forall₂ (fun event group =>
        (∀ f ∈ group, FoundOn config v event f) ∧ group.Pairwise fun f g => place f ≤ place g) events groups ∧
      ∀ id, ∃ rest, ofConfig (config.insert id (.bool false)) = .ok rest ∧
        rest.validate events = .ok (groups.flatten.filter fun f => f.ruleId ≠ id) := by
  have hsound : ∀ rule ∈ v.rules, rule.Sound := fun rule hrule => (enabled_of_mem h hrule).sound
  have hids := ruleIds_sublist h
  refine ⟨hids, events.map v.found, validate_of_sound hsound events, ?_, fun id => ?_⟩
  · rw [List.forall₂_map_right_iff, List.forall₂_same]
    refine fun event _ => ⟨fun f hf => ?_, pairwise_place_found hsound hids event⟩
    obtain ⟨rule, hrule, hf⟩ := List.mem_flatMap.mp hf
    exact (enabled_of_mem h hrule).foundOn hrule hf
  · exact ⟨v.without id, ofConfig_insert_false h id, validate_without hsound id events⟩

/-- All three rules, with overlong lines reported one line above. -/
def sampleRules : RuleConfig :=
  .ofList [("attr-no-duplication", .bool true), ("tags-check", .bool true),
    ("max-length", .object [("line", .string "previous"), ("max", .number (.natural 3))])]

/-- A tag that breaks all three rules, between texts of which the second breaks one. -/
def sampleEvents : List Event :=
  [.text ⟨1, 1, "x"⟩, .openTag (OpenTag.build "a" 2 4 [.attr "alt" "1", .attr "alt" "2"]), .text ⟨0, 9, "y"⟩]

theorem rules_independent_sample : ∃ v, ofConfig sampleRules = .ok v ∧
    ∃ groups : List (List Finding), v.validate sampleEvents = .ok groups.flatten ∧
      groups.flatten.map (fun f => (f.ruleId, f.line.toNat, f.col.toNat)) =
        [("tags-check", 2, 4), ("tags-check", 2, 7), ("attr-no-duplication", 2, 15), ("max-length", 1, 4),
          ("max-length", 0, 9)] ∧
      ∃ rest, ofConfig (sampleRules.insert TagsCheck.ruleId (.bool false)) = .ok rest ∧
        rest.validate sampleEvents = .ok (groups.flatten.filter fun f => f.ruleId ≠ TagsCheck.ruleId) := by
  have hv : ∃ v, ofConfig sampleRules = .ok v ∧ (v.validate sampleEvents).toOption.map
      (fun fs => fs.map fun f => (f.ruleId, f.line.toNat, f.col.toNat)) =
        some [("tags-check", 2, 4), ("tags-check", 2, 7), ("attr-no-duplication", 2, 15), ("max-length", 1, 4),
          ("max-length", 0, 9)] := ⟨_, rfl, by decide⟩
  obtain ⟨v, hconfig, hfound⟩ := hv
  obtain ⟨-, groups, hvalidate, -, hoff⟩ := rules_independent hconfig sampleEvents
  rw [hvalidate] at hfound
  exact ⟨v, hconfig, groups, hvalidate, Option.some.inj hfound, hoff TagsCheck.ruleId⟩

end Validator

end TagLint

import TagLint.Proofs.EventSpellings
import TagLint.Proofs.RuleIndependence

/-!
# Validators and options — what becomes of the options of a configuration

* `MaxLength.Spelled limit ms`: an object with the members `ms` stands for a limit (`ofMembers_eq_ok_iff`);
  `MaxLength.Sets option limit`: an option sets a limit (`ofOption_eq_some_iff`).
* `TagsRefused`, `LimitRefused`: the options from which no validator can be made (`exists_ofConfig_error_iff`).
* `HasRule config id`: the rules that the options give rise to (`mem_ruleIds_iff`).

**`ofConfig_determined`**: these decide whether there is a validator, and which rules it has.
-/

namespace TagLint

open Json Event

/-! ## Limits -/

namespace LineAnchor

variable {anchor : LineAnchor} {j : Json}

/-- A value names a line: by a text, or by an object with that text as its only key and nothing under it. -/
def Named (anchor : LineAnchor) (j : Json) : Prop := j = .string anchor.name ∨ j = .object [(anchor.name, .null)]

theorem ofName_eq_ok_iff {s : String} : ofName s = .ok anchor ↔ s = anchor.name := by
  have hfind (a : LineAnchor) : all.find? (·.name == a.name) = some a := by cases a <;> decide
  constructor
  · intro h
    unfold ofName at h
    split at h
    · rename_i found
      obtain rfl := Except.ok.inj h
      exact (beq_iff_eq.mp (@List.find?_some _ (fun a : LineAnchor => a.name == s) _ _ found)).symm
    · cases h
  · rintro rfl
    rw [ofName, hfind]

theorem ofJson_eq_ok_iff : ofJson j = .ok anchor ↔ anchor.Named j := by
  unfold ofJson Named
  split
  · rename_i s
    simp [ofName_eq_ok_iff]
  · rename_i key value
    cases value <;> simp [bind_eq_ok_iff, ofName_eq_ok_iff, throw, throwThe, MonadExceptOf.throw]
  · rename_i members hne
    simp only [reduceCtorEq, Json.object.injEq, false_or, false_iff]
    exact fun heq => hne _ _ heq
  · rename_i hstring _ hobject
    simp only [reduceCtorEq, false_iff, not_or]
    exact ⟨hstring _, hobject _⟩

end LineAnchor

namespace MaxLength

variable {ms : List (String × Json)} {limit : MaxLength} {option : RuleOption}

/-- An object stands for a limit: it gives the number, and it may give the line on which findings are reported. -/
def Spelled (limit : MaxLength) (ms : List (String × Json)) : Prop :=
  Gives ["max"] ms (coordJson limit.max) ∧ ∃ v, GivesOr (.string "event") ["line"] ms v ∧ limit.anchor.Named v

/-- An option sets a limit: a positive integer of 32 bits, or an object that stands for a limit other than zero. -/
inductive Sets : RuleOption → MaxLength → Prop
  | number {n : ℕ} (hpos : 0 < n) (hlt : n < UInt32.size) : Sets (.number (.natural n)) ⟨UInt32.ofNat n, .event⟩
  | object {ms : List (String × Json)} {limit : MaxLength} (h : limit.Spelled ms) (hpos : limit.max ≠ 0) :
      Sets (.object ms) limit

theorem Fields.read_eq_ok_iff (f : Fields) (m : String × Json) (f' : Fields) : f.read m = .ok f' ↔
    Event.Takes ["max"] asCoord f.max m f'.max ∧ Event.Takes ["line"] LineAnchor.ofJson f.line m f'.line := by
  obtain ⟨name, v⟩ := m
  cases f
  cases f'
  unfold Fields.read
  split <;> simp_all [Event.Takes, pure_eq_ok_iff, map_fill_eq_ok_iff] <;> grind

theorem Fields.foldlM_eq_ok_iff {f f' : Fields} : ms.foldlM Fields.read f = .ok f' ↔
    Event.Fills ["max"] asCoord f.max ms f'.max ∧ Event.Fills ["line"] LineAnchor.ofJson f.line ms f'.line := by
  induction ms generalizing f with
  | nil => cases f; cases f'; simp [pure_eq_ok_iff, fills_nil]
  | cons m ms ih =>
    simp only [List.foldlM_cons, bind_eq_ok_iff, read_eq_ok_iff, ih, fills_cons]
    constructor
    · rintro ⟨_, ⟨max, line⟩, max', line'⟩
      exact ⟨⟨_, max, max'⟩, _, line, line'⟩
    · rintro ⟨⟨_, max, max'⟩, _, line, line'⟩
      exact ⟨⟨_, _⟩, ⟨max, line⟩, max', line'⟩

theorem ofMembers_eq_ok_iff : ofMembers ms = .ok limit ↔ limit.Spelled ms := by
  have hline (anchor : LineAnchor) : (∃ s, Event.Fills ["line"] LineAnchor.ofJson none ms s ∧ s.getD .event = anchor) ↔
      ∃ v, GivesOr (.string "event") ["line"] ms v ∧ anchor.Named v := by
    rw [fills_getD_iff (LineAnchor.ofJson_eq_ok_iff.mpr (.inl rfl))]
    simp only [LineAnchor.ofJson_eq_ok_iff]
    rfl
  simp only [ofMembers, bind_eq_ok_iff, Fields.foldlM_eq_ok_iff, need_eq_ok_iff, pure_eq_ok_iff, Spelled, ← hline,
    ← fills_coord]
  obtain ⟨max, anchor⟩ := limit
  constructor
  · rintro ⟨⟨_, line⟩, ⟨hmax, hline⟩, max', rfl, heq⟩
    cases heq
    exact ⟨hmax, line, hline, rfl⟩
  · rintro ⟨hmax, line, hline, rfl⟩
    exact ⟨⟨some max, line⟩, ⟨hmax, hline⟩, max, rfl, rfl⟩

theorem ofOption_natural {n : ℕ} (hn : 0 < n ∧ n < UInt32.size) :
    ofOption (.number (.natural n)) = .ok (some ⟨UInt32.ofNat n, .event⟩) := by
  simp [ofOption, RuleOption.positiveInt?, hn]

theorem ofOption_object (ms : List (String × Json)) : ofOption (.object ms) =
    match ofMembers ms with
    | .error m => .error (.limit ruleId (.mismatch m))
    | .ok limit => if limit.max = 0 then .error (.limit ruleId .zero) else .ok (some limit) := rfl

theorem ofOption_eq_some_iff : ofOption option = .ok (some limit) ↔ Sets option limit := by
  constructor
  · intro h
    -- all other options are enabled without a limit
    match option with
    | .number (.natural n) =>
      by_cases hn : 0 < n ∧ n < UInt32.size
      · rw [ofOption_natural hn] at h
        cases h
        exact .number hn.1 hn.2
      · simp [ofOption, RuleOption.positiveInt?, RuleOption.object?, hn] at h
    | .object ms =>
      rw [ofOption_object] at h
      split at h
      · cases h
      · rename_i limit' hread
        split_ifs at h with hzero
        cases h
        exact .object (ofMembers_eq_ok_iff.mp hread) hzero
  · rintro (⟨hpos, hlt⟩ | ⟨h, hpos⟩)
    · exact ofOption_natural ⟨hpos, hlt⟩
    · rw [ofOption_object, ofMembers_eq_ok_iff.mpr h]
      exact if_neg hpos

/-- A number and an object with that number under `max` set the same limit. -/
theorem sets_object_natural {n : ℕ} (hn : 0 < n ∧ n < UInt32.size) :
    Sets (.object [("max", .number (.natural n))]) ⟨UInt32.ofNat n, .event⟩ := by
  have hmax : (UInt32.ofNat n).toNat = n := UInt32.toNat_ofNat_of_lt' hn.2
  refine .object ⟨?_, .string "event", .inr ⟨rfl, rfl⟩, .inl rfl⟩ fun hzero => ?_
  · show Gives ["max"] _ (coordJson (UInt32.ofNat n))
    rw [coordJson, hmax]
    rfl
  · have : (UInt32.ofNat n).toNat = 0 := congrArg UInt32.toNat hzero
    omega

/-- Only objects are refused. -/
theorem exists_object {e : RuleError} (h : ofOption option = .error e) : ∃ ms, option = .object ms := by
  unfold ofOption at h
  split at h
  · cases h
  · cases h
  · rename_i ms _ hobject
    cases option <;> cases hobject
    exact ⟨ms, rfl⟩

/-- Objects are refused that stand for no limit or for zero. -/
theorem ofOption_eq_error_iff : (∃ e, ofOption option = .error e) ↔
    ∃ ms, option = .object ms ∧ ∀ limit, Spelled limit ms → limit.max = 0 := by
  constructor
  · rintro ⟨e, h⟩
    obtain ⟨ms, rfl⟩ := exists_object h
    refine ⟨ms, rfl, fun limit hlimit => ?_⟩
    rw [ofOption_object, ofMembers_eq_ok_iff.mpr hlimit] at h
    exact by_contra fun hzero => by simp [hzero] at h
  · rintro ⟨ms, rfl, hzero⟩
    rw [ofOption_object]
    cases hread : ofMembers ms with
    | error m => exact ⟨_, rfl⟩
    | ok limit => exact ⟨_, if_pos (hzero limit (ofMembers_eq_ok_iff.mp hread))⟩

/-- An error of the length rule is one under its id. -/
theorem exists_problem {e : RuleError} (h : ofOption option = .error e) : ∃ problem, e = .limit ruleId problem := by
  obtain ⟨ms, rfl⟩ := exists_object h
  rw [ofOption_object] at h
  split at h
  · exact ⟨_, (Except.error.inj h).symm⟩
  · split_ifs at h
    exact ⟨_, (Except.error.inj h).symm⟩

end MaxLength

/-! ## Validators -/

theorem RuleOption.isEnabled_of_sets {option : RuleOption} {limit : MaxLength} (h : MaxLength.Sets option limit) :
    option.isEnabled := by
  cases h with
  | number hpos => simpa [isEnabled, Json.Number.isPositive] using hpos
  | object => rfl

namespace Validator

variable {config : RuleConfig} {v : Validator} {rules : List Rule} {e : RuleError} {id : String}

/-- The option of the tag rule is an object, and reading its overrides ends in an error. -/
def TagsRefused (config : RuleConfig) (e : RuleError) : Prop :=
  ∃ ms, config.get? TagsCheck.ruleId = some (.object ms) ∧ TagSpecs.ofOverrides ms = .error e

/-- The option of the length rule is an object, and stands for no limit or for zero. -/
def LimitRefused (config : RuleConfig) : Prop :=
  ∃ ms, config.get? MaxLength.ruleId = some (.object ms) ∧ ∀ limit, MaxLength.Spelled limit ms → limit.max = 0

/-- A configuration has an option for a rule, and it turns the rule on. -/
def TurnsOn (config : RuleConfig) (id : String) : Prop := ∃ option, config.get? id = some option ∧ option.isEnabled

/-- The ids of the rules that a configuration gives rise to. -/
inductive HasRule (config : RuleConfig) : String → Prop
  | tagsCheck (h : TurnsOn config TagsCheck.ruleId) : HasRule config TagsCheck.ruleId
  | attrNoDuplication (h : TurnsOn config AttrNoDuplication.ruleId) : HasRule config AttrNoDuplication.ruleId
  | maxLength {option : RuleOption} {limit : MaxLength} (h : config.get? MaxLength.ruleId = some option)
      (hlimit : MaxLength.Sets option limit) : HasRule config MaxLength.ruleId

theorem enabledOption?_eq_some_iff {option : RuleOption} :
    enabledOption? config id = some option ↔ config.get? id = some option ∧ option.isEnabled := by
  simp [enabledOption?, Option.filter_eq_some_iff]

theorem turnsOn_iff : TurnsOn config id ↔ ∃ option, enabledOption? config id = some option := by
  simp only [enabledOption?_eq_some_iff, TurnsOn]

theorem isEnabled_iff_turnsOn : config.isEnabled id ↔ TurnsOn config id := by
  rw [isEnabled_eq_isSome, Option.isSome_iff_exists, turnsOn_iff]

/-! ### Errors -/

theorem specsOf_eq_error_iff {option : RuleOption} : TagsCheck.specsOf option = .error e ↔
    ∃ ms, option = .object ms ∧ TagSpecs.ofOverrides ms = .error e := by
  cases option with
  | object ms => cases h : TagSpecs.ofOverrides ms <;> simp [TagsCheck.specsOf, RuleOption.object?, h, Except.map]
  | bool | number | other => simp [TagsCheck.specsOf, RuleOption.object?]

theorem tagsCheck_eq_error_iff : tagsCheck config = .error e ↔ TagsRefused config e := by
  have herror : tagsCheck config = .error e ↔
      ∃ option, enabledOption? config TagsCheck.ruleId = some option ∧ TagsCheck.specsOf option = .error e := by
    unfold tagsCheck
    cases enabledOption? config TagsCheck.ruleId with
    | none => simp
    | some option => cases h : TagsCheck.specsOf option <;> simp [h, Except.map]
  simp only [herror, enabledOption?_eq_some_iff, specsOf_eq_error_iff, TagsRefused]
  constructor
  · rintro ⟨_, ⟨h, -⟩, ms, rfl, hms⟩
    exact ⟨ms, h, hms⟩
  · rintro ⟨ms, h, hms⟩
    exact ⟨_, ⟨h, rfl⟩, ms, rfl, hms⟩

theorem maxLength_eq_error_iff : maxLength config = .error e ↔
    ∃ option, enabledOption? config MaxLength.ruleId = some option ∧ MaxLength.ofOption option = .error e := by
  unfold maxLength
  cases enabledOption? config MaxLength.ruleId with
  | none => simp
  | some option => cases h : MaxLength.ofOption option <;> simp [h, Except.map]

theorem exists_maxLength_error_iff : (∃ e, maxLength config = .error e) ↔ LimitRefused config := by
  simp only [maxLength_eq_error_iff, enabledOption?_eq_some_iff]
  constructor
  · rintro ⟨e, option, ⟨h, -⟩, herror⟩
    obtain ⟨ms, rfl, hms⟩ := MaxLength.ofOption_eq_error_iff.mp ⟨e, herror⟩
    exact ⟨ms, h, hms⟩
  · rintro ⟨ms, h, hms⟩
    obtain ⟨e, herror⟩ := MaxLength.ofOption_eq_error_iff.mpr ⟨ms, rfl, hms⟩
    exact ⟨e, _, ⟨h, rfl⟩, herror⟩

theorem ofConfig_eq_error_iff : ofConfig config = .error e ↔
    tagsCheck config = .error e ∨ (∃ tags, tagsCheck config = .ok tags) ∧ maxLength config = .error e := by
  simp [ofConfig, bind_eq_error_iff, pure, Except.pure]

/-- There is no validator of a configuration with a bad option. -/
theorem exists_ofConfig_error_iff :
    (∃ e, ofConfig config = .error e) ↔ (∃ e, TagsRefused config e) ∨ LimitRefused config := by
  simp only [ofConfig_eq_error_iff, ← tagsCheck_eq_error_iff, ← exists_maxLength_error_iff]
  constructor
  · rintro ⟨e, h | ⟨-, h⟩⟩
    · exact .inl ⟨e, h⟩
    · exact .inr ⟨e, h⟩
  · rintro (⟨e, h⟩ | ⟨e, h⟩)
    · exact ⟨e, .inl h⟩
    · -- a limit that is refused is not looked at if an override is refused as well
      cases htags : tagsCheck config with
      | error e' => exact ⟨e', .inl rfl⟩
      | ok tags => exact ⟨e, .inr ⟨⟨tags, rfl⟩, h⟩⟩

theorem problem_of_ofConfig_eq_error (h : ofConfig config = .error e) :
    TagsRefused config e ∨ ∃ problem, e = .limit MaxLength.ruleId problem := by
  obtain h | ⟨-, h⟩ := ofConfig_eq_error_iff.mp h
  · exact .inl (tagsCheck_eq_error_iff.mp h)
  · obtain ⟨option, -, herror⟩ := maxLength_eq_error_iff.mp h
    exact .inr (MaxLength.exists_problem herror)

/-! ### Rules -/

theorem mem_tagsCheck_ids_iff (h : tagsCheck config = .ok rules) :
    id ∈ rules.map (·.id) ↔ id = TagsCheck.ruleId ∧ TurnsOn config TagsCheck.ruleId := by
  obtain ⟨hnone, rfl⟩ | ⟨option, specs, hsome, -, rfl⟩ := tagsCheck_eq_ok_iff.mp h
  · simp [turnsOn_iff, hnone]
  · simp [turnsOn_iff, hsome, Rule.total]

theorem mem_attrNoDuplication_ids_iff :
    id ∈ (attrNoDuplication config).map (·.id) ↔
      id = AttrNoDuplication.ruleId ∧ TurnsOn config AttrNoDuplication.ruleId := by
  unfold attrNoDuplication
  split_ifs with hon <;> simp [← isEnabled_iff_turnsOn, hon, Rule.total]

theorem mem_maxLength_ids_iff (h : maxLength config = .ok rules) : id ∈ rules.map (·.id) ↔ id = MaxLength.ruleId ∧
    ∃ option limit, config.get? MaxLength.ruleId = some option ∧ MaxLength.Sets option limit := by
  obtain ⟨hnone, rfl⟩ | ⟨option, limit?, hsome, hlimit, rfl⟩ := maxLength_eq_ok_iff.mp h
  · simp only [List.map_nil, List.not_mem_nil, false_iff, not_and, not_exists]
    intro _ option limit hget hsets
    have := enabledOption?_eq_some_iff.mpr ⟨hget, RuleOption.isEnabled_of_sets hsets⟩
    rw [hnone] at this
    cases this
  · have hget := (enabledOption?_eq_some_iff.mp hsome).1
    simp only [hget, Option.some.injEq, exists_and_left, exists_eq_left', ← MaxLength.ofOption_eq_some_iff, hlimit,
      Except.ok.injEq]
    cases limit? <;> simp [Rule.total]

/-- A validator has the rules that its configuration gives rise to. -/
theorem mem_ruleIds_iff (h : ofConfig config = .ok v) : id ∈ v.ruleIds ↔ HasRule config id := by
  obtain ⟨tags, limit, htags, hlimit, rfl⟩ := ofConfig_eq_ok_iff.mp h
  rw [ruleIds, List.map_append, List.map_append, List.mem_append, List.mem_append, mem_tagsCheck_ids_iff htags,
    mem_attrNoDuplication_ids_iff, mem_maxLength_ids_iff hlimit]
  constructor
  · rintro ((⟨rfl, hon⟩ | ⟨rfl, hon⟩) | ⟨rfl, option, limit, hget, hsets⟩)
    · exact .tagsCheck hon
    · exact .attrNoDuplication hon
    · exact .maxLength hget hsets
  · rintro (hon | hon | ⟨hget, hsets⟩)
    · exact .inl (.inl ⟨rfl, hon⟩)
    · exact .inl (.inr ⟨rfl, hon⟩)
    · exact .inr ⟨rfl, _, _, hget, hsets⟩

/-- Only the options of the known rules count. -/
theorem ofConfig_congr {other : RuleConfig} (h : ∀ id ∈ knownRules, other.get? id = config.get? id) :
    ofConfig other = ofConfig config := by
  obtain ⟨htags, hduplication, hlength⟩ : other.get? TagsCheck.ruleId = config.get? TagsCheck.ruleId ∧
      other.get? AttrNoDuplication.ruleId = config.get? AttrNoDuplication.ruleId ∧
      other.get? MaxLength.ruleId = config.get? MaxLength.ruleId := by
    simpa [knownRules] using h
  simp only [ofConfig, tagsCheck, attrNoDuplication, maxLength, isEnabled_eq_isSome, enabledOption?, htags,
    hduplication, hlength]

/-- Two options for the same limit make the same validator. -/
theorem ofConfig_insert_maxLength {a b : RuleOption} (ha : a.isEnabled) (hb : b.isEnabled)
    (h : MaxLength.ofOption a = MaxLength.ofOption b) :
    ofConfig (config.insert MaxLength.ruleId a) = ofConfig (config.insert MaxLength.ruleId b) := by
  have htags : TagsCheck.ruleId ≠ MaxLength.ruleId := by decide
  have hduplication : AttrNoDuplication.ruleId ≠ MaxLength.ruleId := by decide
  simp only [ofConfig, tagsCheck, attrNoDuplication, maxLength, isEnabled_eq_isSome, enabledOption?,
    SortedMap.get?_insert_self, SortedMap.get?_insert_of_ne _ _ htags, SortedMap.get?_insert_of_ne _ _ hduplication,
    Option.filter_some, ha, hb, if_true, h]

/-- **Options decide.**  There is no validator of a configuration if an override is refused or a limit is, and then the
error of the overrides comes first.  Otherwise the validator has the rules that the options of the known ids give rise
to, in the fixed order, and is the same for all configurations with these options.  A limit may be written as a number
or as an object with that number. -/
theorem ofConfig_determined (config : RuleConfig) :
    ((∃ e, ofConfig config = .error e) ↔ (∃ e, TagsRefused config e) ∨ LimitRefused config) ∧
    (∀ e, TagsRefused config e → ofConfig config = .error e) ∧
    (∀ e, ofConfig config = .error e → TagsRefused config e ∨ ∃ problem, e = .limit MaxLength.ruleId problem) ∧
    (∀ v, ofConfig config = .ok v → v.ruleIds.Sublist ["tags-check", "attr-no-duplication", "max-length"] ∧
      ∀ id, id ∈ v.ruleIds ↔ HasRule config id) ∧
    (∀ other : RuleConfig, (∀ id ∈ ["tags-check", "attr-no-duplication", "max-length"],
      other.get? id = config.get? id) → ofConfig other = ofConfig config) ∧
    (∀ n, 0 < n → n < UInt32.size →
      MaxLength.ofOption (.number (.natural n)) = .ok (some ⟨UInt32.ofNat n, .event⟩) ∧
      MaxLength.ofOption (.object [("max", .number (.natural n))]) = .ok (some ⟨UInt32.ofNat n, .event⟩) ∧
      ofConfig (config.insert "max-length" (.number (.natural n))) =
        ofConfig (config.insert "max-length" (.object [("max", .number (.natural n))]))) := by
  refine ⟨exists_ofConfig_error_iff, fun e h => ?_, fun e h => problem_of_ofConfig_eq_error h,
    fun v h => ⟨ruleIds_sublist h, fun id => mem_ruleIds_iff h⟩, fun other h => ofConfig_congr h, fun n hpos hlt => ?_⟩
  · exact ofConfig_eq_error_iff.mpr (.inl (tagsCheck_eq_error_iff.mpr h))
  · have hnumber := MaxLength.ofOption_natural ⟨hpos, hlt⟩
    have hsets := MaxLength.sets_object_natural ⟨hpos, hlt⟩
    have hobject := MaxLength.ofOption_eq_some_iff.mpr hsets
    exact ⟨hnumber, hobject, ofConfig_insert_maxLength (RuleOption.isEnabled_of_sets (.number hpos hlt))
      (RuleOption.isEnabled_of_sets hsets) (hnumber.trans hobject.symm)⟩

/-- An override and a limit that are refused, and an unknown rule. -/
def badOptions : RuleConfig :=
  .ofList [("tags-check", .object [("img", .number (.natural 42))]), ("indent", .bool true),
    ("max-length", .object [("max", .number (.natural 0))])]

/-- A limit, and the tag rule turned off. -/
def limitOnly : RuleConfig := .ofList [("max-length", .number (.natural 80)), ("tags-check", .other .null)]

theorem ofConfig_determined_badOptions :
    (∃ m, ofConfig badOptions = .error (.tagSpec "img" m)) ∧ LimitRefused badOptions ∧
    ofConfig (badOptions.erase "indent") = ofConfig badOptions ∧
    ∃ v, ofConfig limitOnly = .ok v ∧ "max-length" ∈ v.ruleIds ∧ "tags-check" ∉ v.ruleIds ∧
      ofConfig (limitOnly.insert "max-length" (.object [("max", .number (.natural 80))])) = .ok v := by
  obtain ⟨-, hrefused, -, -, hcongr, -⟩ := ofConfig_determined badOptions
  obtain ⟨-, -, -, hrules, -, hforms⟩ := ofConfig_determined limitOnly
  refine ⟨⟨_, hrefused _ ⟨_, rfl, rfl⟩⟩, ⟨_, rfl, fun limit h => ?_⟩, hcongr _ ?_, _, rfl,
    ((hrules _ rfl).2 _).mpr (.maxLength rfl (.number (by decide) (by decide))), by decide,
    (hforms 80 (by decide) (by decide)).2.2.symm⟩
  · have hzero : Json.number (.natural 0) = coordJson limit.max := (List.cons.inj h.1).1
    simpa [coordJson, ← UInt32.toNat_inj, eq_comm] using hzero
  · simp only [List.forall_mem_cons, List.not_mem_nil, false_implies, implies_true, and_true]
    exact ⟨rfl, rfl, rfl⟩

end Validator

end TagLint

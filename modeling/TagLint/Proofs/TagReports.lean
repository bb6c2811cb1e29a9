import Mathlib.Data.List.Forall2
import TagLint.Proofs.ValuePasses
import TagLint.Rule.TagsCheck

/-!
# Tag reports — what the tag rule reports on an event, in which order

`Reports specs event findings` says what the findings of an event have to be, group by group: one group for the closing
form, then one for each required, each optional and each redundant entry of the spec, in the order of the spec.
**`check_eq_iff_reports`**: the rule gives exactly these findings.
-/

namespace TagLint

namespace TagsCheck

variable {specs : TagSpecs} {tag : OpenTag} {attr : Attribute} {f : Finding} {fs : List Finding}

/-! ## Findings -/

/-- A finding of the tag rule on a tag, at some column. -/
structure StandsAt (tag : OpenTag) (col : ℕ) (message : String) (f : Finding) : Prop where
  severity : f.severity = .error
  message : f.message = message
  line : f.line = tag.line
  col : f.col.toNat = col
  ruleId : f.ruleId = "tags-check"
  raw : f.raw = tag.raw

/-- The column of an attribute, or the last one that there is. -/
def attrPlace (tag : OpenTag) (attr : Attribute) : ℕ := min (tag.col.toNat + attr.offset.toNat) (UInt32.size - 1)

/-- The names that a requirement is about. -/
def namesOf : Requirement → List String
  | .oneOf names => names
  | .valued name _ => [name]

/-- A group of findings about the form in which a tag ends. -/
inductive ReportsClosing (tag : OpenTag) : ClosingPolicy → List Finding → Prop
  | mustSelfClose {f : Finding} (h : tag.selfClosed = false)
      (hf : StandsAt tag tag.col.toNat ("The <" ++ tag.name ++ "> tag must be selfclosing.") f) :
      ReportsClosing tag .mustSelfClose [f]
  | mustNotSelfClose {f : Finding} (h : tag.selfClosed = true)
      (hf : StandsAt tag tag.col.toNat ("The <" ++ tag.name ++ "> tag must not be selfclosing.") f) :
      ReportsClosing tag .mustNotSelfClose [f]
  | fine {policy : ClosingPolicy} (h : policy = .mustSelfClose → tag.selfClosed = true)
      (h' : policy = .mustNotSelfClose → tag.selfClosed = false) : ReportsClosing tag policy []

/-- A group of findings about the values of an attribute: one for each occurrence whose value is not allowed, in order.
-/
def ReportsValues (tag : OpenTag) (verb name : String) (allowed : List String) (fs : List Finding) : Prop :=
  List.Forall₂ (fun attr f => StandsAt tag (attrPlace tag attr) ("The <" ++ tag.name ++ "> tag " ++ verb ++ " attr '" ++
      name ++ "' with one value of '" ++ String.intercalate "' or '" allowed ++ "'.") f)
    (tag.attrs.filter fun attr => attr.name = name ∧ attr.value ∉ allowed) fs

/-- A group of findings about a required entry. -/
inductive ReportsRequired (tag : OpenTag) : Requirement → List Finding → Prop
  | missing {requirement : Requirement} {f : Finding} (h : ∀ attr ∈ tag.attrs, attr.name ∉ namesOf requirement)
      (hf : StandsAt tag tag.col.toNat ("The <" ++ tag.name ++ "> tag must have attr '" ++
        String.intercalate "|" (namesOf requirement) ++ "'.") f) : ReportsRequired tag requirement [f]
  | carried {names : List String} (h : ∃ attr ∈ tag.attrs, attr.name ∈ names) : ReportsRequired tag (.oneOf names) []
  | values {name : String} {allowed : List String} {fs : List Finding} (h : ∃ attr ∈ tag.attrs, attr.name = name)
      (hfs : ReportsValues tag "must have" name allowed fs) : ReportsRequired tag (.valued name allowed) fs

/-- A group of findings about an optional entry, whose attribute may be missing. -/
inductive ReportsOptional (tag : OpenTag) : Requirement → List Finding → Prop
  | silent (names : List String) : ReportsOptional tag (.oneOf names) []
  | values {name : String} {allowed : List String} {fs : List Finding}
      (hfs : ReportsValues tag "can have" name allowed fs) : ReportsOptional tag (.valued name allowed) fs

/-- A group of findings about a redundant attribute: one, at its first occurrence. -/
inductive ReportsRedundant (tag : OpenTag) (name : String) : List Finding → Prop
  | absent (h : ∀ attr ∈ tag.attrs, attr.name ≠ name) : ReportsRedundant tag name []
  | present {before after : List Attribute} {attr : Attribute} {f : Finding}
      (hattrs : tag.attrs = before ++ attr :: after) (hname : attr.name = name)
      (hfirst : ∀ earlier ∈ before, earlier.name ≠ name)
      (hf : StandsAt tag (attrPlace tag attr)
        ("The attr '" ++ name ++ "' is redundant for <" ++ tag.name ++ "> and should be omitted.") f) :
      ReportsRedundant tag name [f]

/-- The findings of the tag rule on an event. -/
inductive Reports (specs : TagSpecs) : Event → List Finding → Prop
  | otherEvent {event : Event} (h : ∀ tag, event ≠ .openTag tag) : Reports specs event []
  | unknownTag {tag : OpenTag} (h : specs.get? (Text.fold tag.name) = none) : Reports specs (.openTag tag) []
  | knownTag {tag : OpenTag} {spec : TagSpec} {closing : List Finding}
      {required optional redundant : List (List Finding)}
      (h : specs.get? (Text.fold tag.name) = some spec) (hclosing : ReportsClosing tag spec.closing closing)
      (hrequired : List.Forall₂ (ReportsRequired tag) spec.required required)
      (hoptional : List.Forall₂ (ReportsOptional tag) spec.optional optional)
      (hredundant : List.Forall₂ (ReportsRedundant tag) spec.redundant redundant) :
      Reports specs (.openTag tag) (closing ++ required.flatten ++ optional.flatten ++ redundant.flatten)

/-! ## Groups -/

theorem standsAt_iff {message : String} {col : Coord} :
    StandsAt tag col.toNat message f ↔ Finding.error ruleId message tag.line col tag.raw = f := by
  constructor
  · rintro ⟨severity, rfl, line, col, ruleId, raw⟩
    cases f
    simp_all [Finding.error, TagsCheck.ruleId, UInt32.toNat_inj]
  · rintro rfl
    exact ⟨rfl, rfl, rfl, rfl, rfl, rfl⟩

theorem attrPlace_eq (tag : OpenTag) (attr : Attribute) : attrPlace tag attr = (tag.attrCol attr).toNat := by
  rw [OpenTag.attrCol, Coord.toNat_satAdd]
  rfl

theorem reportsClosing_iff {policy : ClosingPolicy} :
    ReportsClosing tag policy fs ↔ closingFindings tag policy = fs := by
  constructor
  · intro h
    cases h with
    | mustSelfClose h hf => simp [closingFindings, h, atTag, standsAt_iff.mp hf]
    | mustNotSelfClose h hf => simp [closingFindings, h, atTag, standsAt_iff.mp hf]
    | fine h h' => cases policy <;> simp_all [closingFindings]
  · rintro rfl
    cases policy with
    | mustSelfClose =>
      cases h : tag.selfClosed with
      | false => simpa [closingFindings, h] using .mustSelfClose h (standsAt_iff.mpr rfl)
      | true => simpa [closingFindings, h] using .fine (fun _ => h) nofun
    | mustNotSelfClose =>
      cases h : tag.selfClosed with
      | false => simpa [closingFindings, h] using .fine nofun (fun _ => h)
      | true => simpa [closingFindings, h] using .mustNotSelfClose h (standsAt_iff.mpr rfl)
    | unconstrained => exact .fine nofun nofun

theorem forall₂_iff_map_eq {α β : Type} {R : α → β → Prop} {g : α → β} (h : ∀ a b, R a b ↔ g a = b) {as : List α}
    {bs : List β} : List.Forall₂ R as bs ↔ as.map g = bs := by
  obtain rfl : R = fun a b => g a = b := funext fun a => funext fun b => propext (h a b)
  rw [← List.forall₂_map_left_iff (R := Eq), List.forall₂_eq_eq_eq]

/-- The occurrences of an attribute whose values are not allowed. -/
def refused (attrs : List Attribute) (name : String) (allowed : List String) : List Attribute :=
  (attrs.filter (·.name == name)).filter fun attr => !allowed.contains attr.value

theorem refused_eq_filter {attrs : List Attribute} {name : String} {allowed : List String} :
    refused attrs name allowed = attrs.filter fun attr => attr.name = name ∧ attr.value ∉ allowed := by
  rw [refused, List.filter_filter]
  refine List.filter_congr fun attr _ => ?_
  rw [Bool.eq_iff_iff]
  simp [and_comm]

theorem reportsValues_iff {verb name : String} {allowed : List String} :
    ReportsValues tag verb name allowed fs ↔
      (refused tag.attrs name allowed).map (valueFinding tag verb allowed) = fs := by
  have hmap : (refused tag.attrs name allowed).map (valueFinding tag verb allowed) =
      (refused tag.attrs name allowed).map fun attr => atAttr tag attr ("The <" ++ tag.name ++ "> tag " ++ verb ++
        " attr '" ++ name ++ "' with one value of '" ++ String.intercalate "' or '" allowed ++ "'.") := by
    refine List.map_congr_left fun attr hattr => ?_
    have hname : attr.name = name := by simpa using (List.mem_filter.mp (List.mem_filter.mp hattr).1).2
    rw [valueFinding, hname]
  rw [hmap, refused_eq_filter]
  exact forall₂_iff_map_eq fun attr f => by rw [attrPlace_eq, standsAt_iff, atAttr]

/-- The values of an attribute are looked at when it is there. -/
theorem check_valued (attrs : List Attribute) (name : String) (allowed : List String) :
    (Requirement.valued name allowed).check attrs =
      if ∀ attr ∈ attrs, attr.name ≠ name then .missing name
      else if refused attrs name allowed = [] then .satisfied else .invalid (refused attrs name allowed) allowed := by
  have hnamed : (attrs.filter (·.name == name)).isEmpty ↔ ∀ attr ∈ attrs, attr.name ≠ name := by simp
  simp only [Requirement.check_valued_eq, hnamed, List.isEmpty_iff]
  rfl

theorem refused_eq_nil {attrs : List Attribute} {name : String} (h : ∀ attr ∈ attrs, attr.name ≠ name)
    (allowed : List String) : refused attrs name allowed = [] := by
  have hnamed : attrs.filter (·.name == name) = [] := List.filter_eq_nil_iff.mpr (by simpa using h)
  rw [refused, hnamed, List.filter_nil]

theorem requiredFindings_of_missing {requirement : Requirement}
    (h : ∀ attr ∈ tag.attrs, attr.name ∉ namesOf requirement) : requiredFindings tag requirement =
      [atTag tag ("The <" ++ tag.name ++ "> tag must have attr '" ++ String.intercalate "|" (namesOf requirement) ++
        "'.")] := by
  cases requirement with
  | oneOf names =>
    have hnone : ¬ tag.attrs.any fun attr => names.contains attr.name := by simpa [namesOf] using h
    rw [requiredFindings, Requirement.check, if_neg hnone]
    rfl
  | valued name allowed =>
    rw [requiredFindings, check_valued, if_pos (by simpa [namesOf] using h)]
    rfl

theorem requiredFindings_oneOf {names : List String} (h : ∃ attr ∈ tag.attrs, attr.name ∈ names) :
    requiredFindings tag (.oneOf names) = [] := by
  have hany : tag.attrs.any fun attr => names.contains attr.name := by simpa using h
  rw [requiredFindings, Requirement.check, if_pos hany]

theorem requiredFindings_valued {name : String} (h : ∃ attr ∈ tag.attrs, attr.name = name) (allowed : List String) :
    requiredFindings tag (.valued name allowed) =
      (refused tag.attrs name allowed).map (valueFinding tag "must have" allowed) := by
  rw [requiredFindings, check_valued, if_neg (by simpa using h)]
  split_ifs with hnone
  · rw [hnone]
    rfl
  · rfl

theorem optionalFindings_valued (tag : OpenTag) (name : String) (allowed : List String) :
    optionalFindings tag (.valued name allowed) =
      (refused tag.attrs name allowed).map (valueFinding tag "can have" allowed) := by
  rw [optionalFindings, check_valued, Requirement.hasAllowedValues, if_pos rfl]
  split_ifs with habsent hnone
  · rw [refused_eq_nil habsent]
    rfl
  · rw [hnone]
    rfl
  · rfl

theorem reportsRequired_iff (tag : OpenTag) (requirement : Requirement) (fs : List Finding) :
    ReportsRequired tag requirement fs ↔ requiredFindings tag requirement = fs := by
  constructor
  · intro h
    cases h with
    | missing h hf => rw [requiredFindings_of_missing h, ← standsAt_iff.mp hf, atTag]
    | carried h => exact requiredFindings_oneOf h
    | values h hfs => rw [requiredFindings_valued h, reportsValues_iff.mp hfs]
  · rintro rfl
    by_cases h : ∀ attr ∈ tag.attrs, attr.name ∉ namesOf requirement
    · exact requiredFindings_of_missing h ▸ .missing h (standsAt_iff.mpr rfl)
    have hsome : ∃ attr ∈ tag.attrs, attr.name ∈ namesOf requirement := by simpa using h
    cases requirement with
    | oneOf names => exact requiredFindings_oneOf hsome ▸ .carried hsome
    | valued name allowed =>
      have hnamed : ∃ attr ∈ tag.attrs, attr.name = name := by simpa [namesOf] using hsome
      exact .values hnamed (reportsValues_iff.mpr (requiredFindings_valued hnamed allowed).symm)

theorem reportsOptional_iff (tag : OpenTag) (requirement : Requirement) (fs : List Finding) :
    ReportsOptional tag requirement fs ↔ optionalFindings tag requirement = fs := by
  cases requirement with
  | oneOf names =>
    constructor
    · rintro ⟨⟩
      rfl
    · rintro rfl
      exact .silent names
  | valued name allowed =>
    rw [optionalFindings_valued, ← reportsValues_iff]
    constructor
    · rintro ⟨⟩
      assumption
    · exact .values

theorem reportsRedundant_iff (tag : OpenTag) (name : String) (fs : List Finding) :
    ReportsRedundant tag name fs ↔ redundantFindings tag name = fs := by
  constructor
  · intro h
    cases h with
    | absent h =>
      have hnamed : tag.attrsNamed name = [] := List.filter_eq_nil_iff.mpr (by simpa using h)
      rw [redundantFindings, hnamed]
    | present hattrs hname hfirst hf =>
      rename_i before after attr f
      have hnamed : tag.attrsNamed name = attr :: after.filter (·.name == name) := by
        have hbefore : before.filter (·.name == name) = [] := List.filter_eq_nil_iff.mpr (by simpa using hfirst)
        rw [OpenTag.attrsNamed, hattrs, List.filter_append, hbefore, List.filter_cons_of_pos (by simpa using hname)]
        rfl
      rw [attrPlace_eq, standsAt_iff] at hf
      rw [redundantFindings, hnamed, ← hf]
      rfl
  · rintro rfl
    rw [redundantFindings]
    cases hnamed : tag.attrsNamed name with
    | nil => exact .absent (by simpa using List.filter_eq_nil_iff.mp hnamed)
    | cons attr later =>
      obtain ⟨before, after, hattrs, hfirst, hname, -⟩ := List.filter_eq_cons_iff.mp hnamed
      refine .present hattrs (by simpa using hname) (by simpa using hfirst) ?_
      rw [attrPlace_eq, standsAt_iff]
      rfl

/-! ## The tag rule -/

/-- **The tag rule meets its specification.**  On every event it reports exactly the findings that are due, in the order
of the spec. -/
theorem check_eq_iff_reports (specs : TagSpecs) (event : Event) (findings : List Finding) :
    check specs event = findings ↔ Reports specs event findings := by
  constructor
  · rintro rfl
    cases event with
    | openTag tag =>
      cases h : specs.get? (Text.fold tag.name) with
      | none =>
        have hcheck : check specs (.openTag tag) = [] := by simp [check, TagSpecs.find?, h]
        exact hcheck ▸ .unknownTag h
      | some spec =>
        have hcheck : check specs (.openTag tag) = checkTag tag spec := by simp [check, TagSpecs.find?, h]
        rw [hcheck, checkTag, List.flatMap_def, List.flatMap_def, List.flatMap_def]
        exact .knownTag h (reportsClosing_iff.mpr rfl) ((forall₂_iff_map_eq (reportsRequired_iff _)).mpr rfl)
          ((forall₂_iff_map_eq (reportsOptional_iff _)).mpr rfl)
          ((forall₂_iff_map_eq (reportsRedundant_iff _)).mpr rfl)
    | _ => exact .otherEvent nofun
  · intro h
    cases h with
    | otherEvent h =>
      cases event with
      | openTag tag => exact absurd rfl (h tag)
      | _ => rfl
    | unknownTag h => simp [check, TagSpecs.find?, h]
    | knownTag h hclosing hrequired hoptional hredundant =>
      obtain rfl := reportsClosing_iff.mp hclosing
      obtain rfl := (forall₂_iff_map_eq (reportsRequired_iff _)).mp hrequired
      obtain rfl := (forall₂_iff_map_eq (reportsOptional_iff _)).mp hoptional
      obtain rfl := (forall₂_iff_map_eq (reportsRedundant_iff _)).mp hredundant
      simp [check, TagSpecs.find?, h, checkTag, List.flatMap_def]

end TagsCheck

end TagLint

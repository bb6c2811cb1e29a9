import TagLint.Proofs.AttributePlaces
import TagLint.Proofs.TagRegistry

/-!
# Redundant notices — how often a tag is told that an attribute is redundant

* `noticeCount specs tag name`: the findings that call `name` redundant, told from all others by their message
  (`redundantMessage_injective`, `AboutTag.message_ne`).
* `noticeCount_eq`: there are as many as the spec of the tag lists the name, if the tag carries it at all.
* `InForce members key value`: the member of a configuration object that the tags of its key are checked against.

**`noticed_once_iff`**: no attribute is called redundant twice on one tag, just when no override in force lists a name
twice (`listed_twice_noticed_twice`).
-/

namespace TagLint

namespace TagsCheck

variable {tag : OpenTag} {specs user : TagSpecs} {name listed key : String} {f : Finding}
  {members : List (String × Json)} {value : Json}

/-! ## Messages -/

/-- What a tag is told about a redundant attribute. -/
def redundantMessage (tag : OpenTag) (name : String) : String :=
  "The attr '" ++ name ++ "' is redundant for <" ++ tag.name ++ "> and should be omitted."

theorem redundantMessage_injective (tag : OpenTag) : Function.Injective (redundantMessage tag) := by
  intro a b h
  have hlist := congrArg String.toList h
  simp only [redundantMessage, String.toList_append, List.append_left_inj, List.append_right_inj] at hlist
  exact String.toList_injective hlist

/-- The message of a finding begins with the tag, not with an attribute. -/
def AboutTag (f : Finding) : Prop := "The <".toList <+: f.message.toList

theorem aboutTag_of_mem_closingFindings {policy : ClosingPolicy} (h : f ∈ closingFindings tag policy) :
    AboutTag f := by
  cases policy with
  | mustSelfClose =>
    rw [closingFindings] at h
    split_ifs at h
    · cases h
    · obtain rfl := List.mem_singleton.mp h
      simp [AboutTag, atTag, Finding.error]
  | mustNotSelfClose =>
    rw [closingFindings] at h
    split_ifs at h
    · obtain rfl := List.mem_singleton.mp h
      simp [AboutTag, atTag, Finding.error]
    · cases h
  | unconstrained => cases h

theorem aboutTag_valueFinding (verb : String) (allowed : List String) (attr : Attribute) :
    AboutTag (valueFinding tag verb allowed attr) := by
  simp [AboutTag, valueFinding, atAttr, Finding.error]

theorem aboutTag_of_mem_requiredFindings {r : Requirement} (h : f ∈ requiredFindings tag r) : AboutTag f := by
  rcases mem_requiredFindings_iff.mp h with ⟨lacking, -, rfl⟩ | ⟨attr, -, allowed, -, -, rfl⟩
  · simp [AboutTag, atTag, Finding.error]
  · exact aboutTag_valueFinding "must have" allowed attr

theorem aboutTag_of_mem_optionalFindings {r : Requirement} (h : f ∈ optionalFindings tag r) : AboutTag f := by
  obtain ⟨attr, -, allowed, -, -, rfl⟩ := mem_optionalFindings_iff.mp h
  exact aboutTag_valueFinding "can have" allowed attr

theorem AboutTag.message_ne (h : AboutTag f) : f.message ≠ redundantMessage tag name := by
  intro heq
  rw [AboutTag, heq] at h
  simp [redundantMessage] at h

/-! ## Counting -/

/-- The number of findings that call an attribute redundant. -/
def noticeCount (specs : TagSpecs) (tag : OpenTag) (name : String) : ℕ :=
  (check specs (.openTag tag)).countP (·.message = redundantMessage tag name)

/-- The attributes that the spec of a tag lists as redundant. -/
def redundantNames (specs : TagSpecs) (tag : OpenTag) : List String :=
  ((specs.find? tag.name).map (·.redundant)).getD []

theorem redundantFindings_eq_nil (h : tag.hasAttr listed = false) : redundantFindings tag listed = [] := by
  have hnamed : tag.attrsNamed listed = [] := by simpa [OpenTag.attrsNamed, OpenTag.hasAttr] using h
  rw [redundantFindings, hnamed]

/-- An attribute that a tag carries, however often, is reported once for each time that it is listed. -/
theorem exists_redundantFindings_eq (h : tag.hasAttr listed) :
    ∃ f, redundantFindings tag listed = [f] ∧ f.message = redundantMessage tag listed := by
  have hnamed : tag.attrsNamed listed ≠ [] := by simpa [OpenTag.attrsNamed, OpenTag.hasAttr] using h
  obtain ⟨attr, rest, hcons⟩ := List.exists_cons_of_ne_nil hnamed
  exact ⟨_, by rw [redundantFindings, hcons], rfl⟩

theorem countP_redundantFindings :
    (redundantFindings tag listed).countP (·.message = redundantMessage tag name) =
      if listed = name ∧ tag.hasAttr name then 1 else 0 := by
  by_cases h : tag.hasAttr listed
  · obtain ⟨f, hf, hmessage⟩ := exists_redundantFindings_eq h
    rw [hf, List.countP_singleton, hmessage]
    simp only [decide_eq_true_eq, (redundantMessage_injective tag).eq_iff]
    refine if_congr (iff_self_and.mpr ?_) rfl rfl
    rintro rfl
    exact h
  · rw [redundantFindings_eq_nil (Bool.eq_false_iff.mpr h), List.countP_nil, if_neg]
    rintro ⟨rfl, hname⟩
    exact h hname

theorem countP_flatMap_redundantFindings (names : List String) :
    (names.flatMap (redundantFindings tag)).countP (·.message = redundantMessage tag name) =
      if tag.hasAttr name then names.count name else 0 := by
  induction names with
  | nil => simp
  | cons listed names ih =>
    rw [List.flatMap_cons, List.countP_append, countP_redundantFindings, ih, List.count_cons]
    by_cases h : tag.hasAttr name
    · simp [h, Nat.add_comm]
    · simp [h]

theorem noticeCount_eq (specs : TagSpecs) (tag : OpenTag) (name : String) :
    noticeCount specs tag name = if tag.hasAttr name then (redundantNames specs tag).count name else 0 := by
  cases hfind : specs.find? tag.name with
  | none => simp [noticeCount, redundantNames, check, hfind]
  | some spec =>
    have hnames : redundantNames specs tag = spec.redundant := by simp [redundantNames, hfind]
    have hothers : (closingFindings tag spec.closing ++ spec.required.flatMap (requiredFindings tag) ++
        spec.optional.flatMap (optionalFindings tag)).countP (·.message = redundantMessage tag name) = 0 := by
      rw [List.countP_eq_zero]
      intro f hf
      have habout : AboutTag f := by
        simp only [List.mem_append, List.mem_flatMap] at hf
        rcases hf with (hf | ⟨r, -, hf⟩) | ⟨r, -, hf⟩
        · exact aboutTag_of_mem_closingFindings hf
        · exact aboutTag_of_mem_requiredFindings hf
        · exact aboutTag_of_mem_optionalFindings hf
      simpa using habout.message_ne
    rw [noticeCount, check_openTag hfind, checkTag, List.countP_append, hothers, Nat.zero_add,
      countP_flatMap_redundantFindings, hnames]

/-- A tag can carry any attribute. -/
theorem noticeCount_le_one_iff :
    (∀ tag name, noticeCount specs tag name ≤ 1) ↔ ∀ tag, (redundantNames specs tag).Nodup := by
  simp only [List.nodup_iff_count_le_one]
  constructor
  · intro h tag name
    have hle := h { tag with attrs := [⟨name, "", 0⟩] } name
    rw [noticeCount_eq, if_pos (by simp [OpenTag.hasAttr])] at hle
    exact hle
  · intro h tag name
    rw [noticeCount_eq]
    split_ifs
    · exact h tag name
    · exact Nat.zero_le 1

/-! ## Overrides -/

/-- A member of a configuration object that the tags of its key are checked against: the last one that names them. -/
def InForce (members : List (String × Json)) (key : String) (value : Json) : Prop :=
  ∃ before after, members = before ++ (key, value) :: after ∧ ∀ m ∈ after, ¬ Text.sameFolded m.1 key

theorem nodup_redundantNames_builtin (tag : OpenTag) : (redundantNames TagSpecs.builtin tag).Nodup := by
  have hall : ∀ spec ∈ TagSpecs.builtinSpecs, spec.redundant.Nodup := by decide
  rw [redundantNames]
  cases hfind : TagSpecs.builtin.find? tag.name with
  | none => exact List.nodup_nil
  | some spec => exact hall spec (TagSpecs.mem_of_get?_ofSpecs hfind).1

theorem redundantNames_merge_of_forall_not (huser : TagSpecs.ofOverrides members = .ok user)
    (h : ∀ m ∈ members, ¬ Text.sameFolded m.1 tag.name) :
    redundantNames (TagSpecs.builtin.merge user) tag = redundantNames TagSpecs.builtin tag := by
  rw [redundantNames, TagSpecs.find?_merge, TagSpecs.find?_ofOverrides_none huser h, Option.none_or, redundantNames]

theorem InForce.redundantNames_merge (h : InForce members key value) (huser : TagSpecs.ofOverrides members = .ok user)
    (hname : Text.sameFolded key tag.name) :
    ∃ written, WrittenSpec.ofJson value = .ok written ∧
      redundantNames (TagSpecs.builtin.merge user) tag = written.redundant := by
  obtain ⟨before, after, rfl, hafter⟩ := h
  have hlast : ∀ m ∈ after, ¬ Text.sameFolded m.1 tag.name := by
    simpa only [Text.sameFolded, beq_iff_eq, ← beq_iff_eq.mp hname] using hafter
  obtain ⟨spec, hread, hfind⟩ := TagSpecs.find?_ofOverrides_last huser hname hlast
  obtain ⟨written, hwritten, -, -, -, -, hredundant⟩ := TagSpecs.readSpec_eq_ok_iff.mp hread
  exact ⟨written, hwritten, by simp [redundantNames, TagSpecs.find?_merge, hfind, hredundant]⟩

theorem exists_inForce (h : ∃ m ∈ members, Text.sameFolded m.1 name) :
    ∃ key value, InForce members key value ∧ Text.sameFolded key name := by
  obtain ⟨before, ⟨key, value⟩, after, hmembers, hname, hafter⟩ := exists_last h
  refine ⟨key, value, ⟨before, after, hmembers, ?_⟩, hname⟩
  simpa only [Text.sameFolded, beq_iff_eq, beq_iff_eq.mp hname] using hafter

theorem nodup_redundantNames_merge_iff (huser : TagSpecs.ofOverrides members = .ok user) :
    (∀ tag, (redundantNames (TagSpecs.builtin.merge user) tag).Nodup) ↔
      ∀ key value written, InForce members key value → WrittenSpec.ofJson value = .ok written →
        written.redundant.Nodup := by
  constructor
  · intro h key value written hforce hwritten
    have hname : Text.sameFolded key (OpenTag.new key 1 1).name := beq_self_eq_true _
    obtain ⟨other, hother, hnames⟩ := hforce.redundantNames_merge huser hname
    obtain rfl := Except.ok.inj (hwritten.symm.trans hother)
    exact hnames ▸ h (.new key 1 1)
  · intro h tag
    by_cases hsome : ∃ m ∈ members, Text.sameFolded m.1 tag.name
    · obtain ⟨key, value, hforce, hname⟩ := exists_inForce hsome
      obtain ⟨written, hwritten, hnames⟩ := hforce.redundantNames_merge huser hname
      exact hnames ▸ h key value written hforce hwritten
    · rw [redundantNames_merge_of_forall_not huser fun m hm hname => hsome ⟨m, hm, hname⟩]
      exact nodup_redundantNames_builtin tag

/-- **When an attribute is called redundant once at most.**  With an accepted option, an attribute that a tag carries is
called redundant as often as the spec of the tag lists it, however often the tag carries it.  No tag is told so twice
just when no override in force lists a name twice. -/
theorem noticed_once_iff (option : RuleOption) (specs : TagSpecs) (h : specsOf option = .ok specs) :
    (∀ tag name, noticeCount specs tag name =
      if tag.hasAttr name then (redundantNames specs tag).count name else 0) ∧
    ((∀ tag name, noticeCount specs tag name ≤ 1) ↔
      ∀ members key value written, option = .object members → InForce members key value →
        WrittenSpec.ofJson value = .ok written → written.redundant.Nodup) := by
  refine ⟨noticeCount_eq specs, noticeCount_le_one_iff.trans ?_⟩
  cases option with
  | object members =>
    obtain ⟨user, huser, rfl⟩ := map_eq_ok_iff.mp h
    rw [nodup_redundantNames_merge_iff huser]
    constructor
    · rintro hall _ key value written ⟨⟩
      exact hall key value written
    · exact fun hall key value written => hall members key value written rfl
  | _ =>
    cases h
    exact iff_of_true nodup_redundantNames_builtin nofun

/-- A redundant name under each of two spellings of a tag, once under the one that counts. -/
def listedOnce : RuleOption :=
  .object [("A", .object [("redundantAttrs", .array [.string "alt", .string "alt"])]),
    ("a", .object [("redundantAttrs", .array [.string "title", .string "alt"])])]

/-- A redundant name that is listed twice. -/
def listedTwice : RuleOption :=
  .object [("a", .object [("redundantAttrs", .array [.string "alt", .string "alt"])])]

/-- A tag that carries an attribute twice. -/
def repeatedAlt : OpenTag := ((OpenTag.new "A" 4 10).withAttr "alt" "home").withAttr "alt" "house"

theorem noticed_once_iff_listedOnce : ∃ specs, specsOf listedOnce = .ok specs ∧ noticeCount specs repeatedAlt "alt" = 1 ∧
    ∀ tag name, noticeCount specs tag name ≤ 1 := by
  obtain ⟨specs, hspecs, hnames⟩ : ∃ specs, specsOf listedOnce = .ok specs ∧
      redundantNames specs repeatedAlt = ["title", "alt"] := ⟨_, rfl, by decide⟩
  obtain ⟨hcount, honce⟩ := noticed_once_iff listedOnce specs hspecs
  refine ⟨specs, hspecs, ?_, honce.mpr ?_⟩
  · rw [hcount, hnames]
    decide
  · rintro _ key value written ⟨⟩ ⟨before, after, hmembers, hafter⟩ hwritten
    match before with
    | [] =>
      -- the greater spelling follows
      cases hmembers
      exact absurd (by decide) (hafter _ (List.mem_singleton_self _))
    | [_] =>
      cases hmembers
      obtain rfl : ⟨none, [], [], ["title", "alt"]⟩ = written := Except.ok.inj hwritten
      decide
    | _ :: _ :: _ => simp at hmembers

/-- An override that lists a name twice is accepted, and a tag that carries the attribute once is told so twice. -/
theorem listed_twice_noticed_twice : ∃ specs, specsOf listedTwice = .ok specs ∧
    noticeCount specs ((OpenTag.new "a" 4 10).withAttr "alt" "home") "alt" = 2 :=
  ⟨_, rfl, by decide⟩

end TagsCheck

end TagLint

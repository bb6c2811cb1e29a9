import TagLint.Proofs.AlternativeNames
import TagLint.Proofs.OverrideShapes

/-!
# Meetable requirements — which accepted requirements a tag can satisfy

* `Requirement.Meetable`: some attributes, all of which have names, satisfy the requirement (`meetable_oneOf_iff`,
  `meetable_valued_iff`).
* `TagSpecs.exists_means_of_mem`: a requirement of an accepted registry is one that an override writes down.

**`meetable_iff_of_accepted`**: of the accepted requirements just those cannot be met that ask for the empty name, or
for a value without allowing any; they are reported on every use of their tag (`nameless_list_never_met`).
-/

namespace TagLint

namespace Requirement

variable {r : Requirement} {attrs : List Attribute} {name text : String} {names allowed : List String}

/-- Some attributes satisfy a requirement.  An attribute that can be written has a name. -/
def Meetable (r : Requirement) : Prop :=
  ∃ attrs : List Attribute, (∀ attr ∈ attrs, attr.name ≠ "") ∧ r.check attrs = .satisfied

theorem meetable_oneOf_iff : Meetable (.oneOf names) ↔ ∃ name ∈ names, name ≠ "" := by
  simp only [Meetable, check_eq_iff_verdict]
  constructor
  · rintro ⟨attrs, hattrs, hverdict⟩
    cases hverdict with
    | carried h =>
      obtain ⟨attr, hattr, hname⟩ := h
      exact ⟨attr.name, hname, hattrs attr hattr⟩
  · rintro ⟨name, hname, hne⟩
    exact ⟨[⟨name, "", 0⟩], List.forall_mem_singleton.mpr hne, .carried ⟨_, List.mem_singleton_self _, hname⟩⟩

theorem meetable_valued_iff : Meetable (.valued name allowed) ↔ name ≠ "" ∧ allowed ≠ [] := by
  simp only [Meetable, check_eq_iff_verdict]
  constructor
  · rintro ⟨attrs, hattrs, hverdict⟩
    cases hverdict with
    | allowed h hall =>
      obtain ⟨attr, hattr, rfl⟩ := h
      exact ⟨hattrs attr hattr, List.ne_nil_of_mem (hall attr hattr rfl)⟩
  · rintro ⟨hne, hallowed⟩
    obtain ⟨value, hvalue⟩ := List.exists_mem_of_ne_nil allowed hallowed
    exact ⟨[⟨name, value, 0⟩], List.forall_mem_singleton.mpr hne,
      .allowed ⟨_, List.mem_singleton_self _, rfl⟩ (by simpa using hvalue)⟩

/-- What is written down as a text of names can be met. -/
theorem meetable_alternatives (h : ¬ WrittenRequirement.Nameless (.joined text)) : Meetable (.alternatives text) := by
  obtain ⟨names, hnames⟩ : ∃ names, alternatives text = .oneOf names := ⟨_, rfl⟩
  have hne : names ≠ [] := by
    rintro rfl
    exact h (WrittenRequirement.alternatives_eq_iff.mp hnames)
  obtain ⟨name, hname⟩ := List.exists_mem_of_ne_nil names hne
  rw [hnames, meetable_oneOf_iff]
  exact ⟨name, hname, (areNames_of_alternatives hnames name hname).1⟩

theorem meetable_iff_of_means {written : WrittenRequirement} (h : written.Means r) :
    r.Meetable ↔ (∀ allowed, r ≠ .valued "" allowed) ∧ ∀ name, r ≠ .valued name [] := by
  cases h with
  | joined h => exact iff_of_true (meetable_alternatives h) ⟨fun _ => nofun, fun _ => nofun⟩
  | listed name allowed => simp [meetable_valued_iff]

end Requirement

namespace TagsCheck

variable {tag : OpenTag} {specs : TagSpecs} {spec : TagSpec} {r : Requirement}

theorem requiredFindings_eq_nil_iff : requiredFindings tag r = [] ↔ r.check tag.attrs = .satisfied := by
  rw [requiredFindings]
  have hverdict := Requirement.verdict_check r tag.attrs
  cases h : r.check tag.attrs with
  | satisfied => simp
  | missing name => simp
  | invalid bad allowed =>
    rw [h] at hverdict
    cases hverdict with
    | refused _ hne => simp [hne]

theorem check_ne_nil_of_required (hfind : specs.find? tag.name = some spec) (hr : r ∈ spec.required)
    (hfindings : requiredFindings tag r ≠ []) : check specs (.openTag tag) ≠ [] := by
  obtain ⟨f, hf⟩ := List.exists_mem_of_ne_nil _ hfindings
  have hmem : f ∈ spec.required.flatMap (requiredFindings tag) := List.mem_flatMap.mpr ⟨r, hr, hf⟩
  rw [check_openTag hfind, checkTag]
  exact List.ne_nil_of_mem (List.mem_append_left _ (List.mem_append_left _ (List.mem_append_right _ hmem)))

end TagsCheck

namespace TagSpecs

variable {o : SortedMap String Json} {user : TagSpecs} {key : String} {spec : TagSpec} {r : Requirement}

theorem exists_means_of_mem (huser : ofOverrides o.entries = .ok user) (hspec : user.get? key = some spec)
    (hr : r ∈ spec.required) : ∃ written : WrittenRequirement, written.Means r := by
  obtain ⟨specs, hspecs, rfl⟩ := ofOverrides_eq_ok_iff.mp huser
  obtain ⟨m, -, hread, -⟩ := exists_member_of_mem hspecs (mem_of_get?_ofSpecs hspec).1
  obtain ⟨written, -, -, -, hrequired, -⟩ := readSpec_eq_ok_iff.mp hread
  exact Event.exists_of_forall₂ hrequired.flip r hr

/-- **Which accepted requirements can be met.**  A required entry of an accepted registry can be met unless it is a list
that starts with the empty name, or one that allows no value; such an entry is reported on every use of its tag. -/
theorem meetable_iff_of_accepted (o : SortedMap String Json) (user : TagSpecs)
    (huser : ofOverrides o.entries = .ok user) (key : String) (spec : TagSpec) (hspec : user.get? key = some spec)
    (r : Requirement) (hr : r ∈ spec.required) :
    (r.Meetable ↔ (∀ allowed, r ≠ .valued "" allowed) ∧ ∀ name, r ≠ .valued name []) ∧
    (¬ r.Meetable → ∀ tag : OpenTag, Text.fold tag.name = key → (∀ attr ∈ tag.attrs, attr.name ≠ "") →
      TagsCheck.check (builtin.merge user) (.openTag tag) ≠ []) := by
  obtain ⟨written, hmeans⟩ := exists_means_of_mem huser hspec hr
  refine ⟨Requirement.meetable_iff_of_means hmeans, fun hnever tag hname hattrs => ?_⟩
  have hfind : (builtin.merge user).find? tag.name = some spec := by
    rw [find?_merge, find?, hname, hspec, Option.some_or]
  refine TagsCheck.check_ne_nil_of_required hfind hr fun hnil => ?_
  exact hnever ⟨tag.attrs, hattrs, TagsCheck.requiredFindings_eq_nil_iff.mp hnil⟩

/-- A requirement that can be met, and one for an attribute without a name. -/
def namelessList : SortedMap String Json :=
  .ofList [("IMG", .object [("attrsRequired", .array [.array [.string "loading", .string "lazy"],
    .array [.string "", .string "x"]])])]

theorem exists_namelessList : ∃ user spec, ofOverrides namelessList.entries = .ok user ∧ user.get? "img" = some spec ∧
    .valued "loading" ["lazy"] ∈ spec.required ∧ .valued "" ["x"] ∈ spec.required :=
  ⟨_, _, rfl, rfl, by decide, by decide⟩

theorem meetable_iff_of_accepted_image : ∃ user spec,
    (ofOverrides namelessList.entries = .ok user ∧ user.get? "img" = some spec ∧
      .valued "loading" ["lazy"] ∈ spec.required ∧ .valued "" ["x"] ∈ spec.required) ∧
    Requirement.Meetable (.valued "loading" ["lazy"]) ∧ ¬ Requirement.Meetable (.valued "" ["x"]) ∧
    TagsCheck.check (builtin.merge user) (.openTag ((OpenTag.new "Img" 1 1).withAttr "loading" "lazy")) ≠ [] := by
  obtain ⟨user, spec, huser, hspec, hlazy, hnameless⟩ := exists_namelessList
  obtain ⟨hmeetable, -⟩ := meetable_iff_of_accepted namelessList user huser "img" spec hspec _ hlazy
  obtain ⟨hiff, hreported⟩ := meetable_iff_of_accepted namelessList user huser "img" spec hspec _ hnameless
  have hnever : ¬ Requirement.Meetable (.valued "" ["x"]) := fun h => (hiff.mp h).1 ["x"] rfl
  refine ⟨user, spec, ⟨huser, hspec, hlazy, hnameless⟩, hmeetable.mpr ⟨?_, ?_⟩, hnever,
    hreported hnever _ (by decide) (by decide)⟩
  · exact fun allowed => by simp
  · exact fun name => by simp

/-- A list that starts with the empty name is accepted, and no attributes that can be written satisfy it. -/
theorem nameless_list_never_met : ∃ user spec r,
    ofOverrides namelessList.entries = .ok user ∧ user.get? "img" = some spec ∧ r ∈ spec.required ∧
    ¬ ∃ attrs : List Attribute, (∀ attr ∈ attrs, attr.name ≠ "") ∧ r.check attrs = .satisfied := by
  obtain ⟨user, spec, huser, hspec, -, hnameless⟩ := exists_namelessList
  exact ⟨user, spec, _, huser, hspec, hnameless, fun h => (Requirement.meetable_valued_iff.mp h).1 rfl⟩

end TagSpecs

end TagLint

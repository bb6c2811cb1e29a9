import TagLint.Proofs.TagReports

/-!
# Requirement verdicts — what a check of a requirement finds on a list of attributes

* `Verdict attrs requirement outcome`: the outcome that is due, in two phases.  The names come first; the values of an
  attribute count only where its name is there (`check_eq_iff_verdict`).
* `Outcome.SameUpToOrder`: two outcomes are of one kind and object to the same attributes, in any order
  (`sameUpToOrder_of_perm`).
* `check_filter_mentions`: a requirement looks at the attributes that it mentions, and at no other.

**`check_in_two_phases`** puts these together.
-/

namespace TagLint

namespace Requirement

open TagsCheck (namesOf refused refused_eq_filter check_valued)

variable {requirement : Requirement} {attrs others : List Attribute} {outcome : Outcome} {name : String}
  {names allowed : List String}

/-! ## Verdicts -/

/-- The outcome of a requirement that is due on a list of attributes. -/
inductive Verdict (attrs : List Attribute) : Requirement → Outcome → Prop
  | carried {names : List String} (h : ∃ attr ∈ attrs, attr.name ∈ names) : Verdict attrs (.oneOf names) .satisfied
  | lacking {names : List String} (h : ∀ attr ∈ attrs, attr.name ∉ names) :
      Verdict attrs (.oneOf names) (.missing (String.intercalate "|" names))
  | absent {name : String} {allowed : List String} (h : ∀ attr ∈ attrs, attr.name ≠ name) :
      Verdict attrs (.valued name allowed) (.missing name)
  | refused {name : String} {allowed : List String} {bad : List Attribute}
      (hbad : attrs.filter (fun attr => attr.name = name ∧ attr.value ∉ allowed) = bad) (hne : bad ≠ []) :
      Verdict attrs (.valued name allowed) (.invalid bad allowed)
  | allowed {name : String} {allowed : List String} (h : ∃ attr ∈ attrs, attr.name = name)
      (hall : ∀ attr ∈ attrs, attr.name = name → attr.value ∈ allowed) :
      Verdict attrs (.valued name allowed) .satisfied

theorem check_oneOf (attrs : List Attribute) (names : List String) : (oneOf names).check attrs =
    if ∃ attr ∈ attrs, attr.name ∈ names then .satisfied else .missing (String.intercalate "|" names) := by
  simp [check, displayName]

theorem refused_eq_nil_iff :
    refused attrs name allowed = [] ↔ ∀ attr ∈ attrs, attr.name = name → attr.value ∈ allowed := by
  simp [refused_eq_filter]

theorem verdict_check (requirement : Requirement) (attrs : List Attribute) :
    Verdict attrs requirement (requirement.check attrs) := by
  cases requirement with
  | oneOf names =>
    rw [check_oneOf]
    split_ifs with h
    · exact .carried h
    · exact .lacking fun attr hattr hname => h ⟨attr, hattr, hname⟩
  | valued name allowed =>
    rw [check_valued]
    split_ifs with habsent hnone
    · exact .absent habsent
    · exact .allowed (by simpa using habsent) (refused_eq_nil_iff.mp hnone)
    · exact .refused refused_eq_filter.symm hnone

theorem Verdict.check_eq (h : Verdict attrs requirement outcome) : requirement.check attrs = outcome := by
  cases h with
  | carried h => rw [check_oneOf, if_pos h]
  | lacking h =>
    rw [check_oneOf, if_neg]
    rintro ⟨attr, hattr, hname⟩
    exact h attr hattr hname
  | absent h => rw [check_valued, if_pos h]
  | refused hbad hne =>
    -- an attribute with a value that is not allowed is one with the name
    rw [← refused_eq_filter] at hbad
    have hnamed := fun habsent => hne (hbad ▸ TagsCheck.refused_eq_nil habsent _)
    rw [check_valued, if_neg hnamed, hbad, if_neg hne]
  | allowed h hall => rw [check_valued, if_neg (by simpa using h), if_pos (refused_eq_nil_iff.mpr hall)]

theorem check_eq_iff_verdict : requirement.check attrs = outcome ↔ Verdict attrs requirement outcome :=
  ⟨fun h => h ▸ verdict_check requirement attrs, Verdict.check_eq⟩

theorem exists_check_eq_missing_iff :
    (∃ name, requirement.check attrs = .missing name) ↔ ∀ attr ∈ attrs, attr.name ∉ namesOf requirement := by
  simp only [check_eq_iff_verdict]
  constructor
  · rintro ⟨_, h | h | h⟩
    · assumption
    · simpa [namesOf]
  · intro h
    cases requirement with
    | oneOf names => exact ⟨_, .lacking h⟩
    | valued name allowed => exact ⟨_, .absent (by simpa [namesOf] using h)⟩

/-! ## Order -/

/-- Two outcomes of one kind, about the same name or the same attributes, which may come in another order. -/
inductive Outcome.SameUpToOrder : Outcome → Outcome → Prop
  | satisfied : SameUpToOrder .satisfied .satisfied
  | missing (name : String) : SameUpToOrder (.missing name) (.missing name)
  | invalid {bad bad' : List Attribute} (allowed : List String) (h : bad.Perm bad') :
      SameUpToOrder (.invalid bad allowed) (.invalid bad' allowed)

/-- Rearranged attributes are due the same verdict up to order. -/
theorem Verdict.exists_of_perm (hv : Verdict attrs requirement outcome) (h : attrs.Perm others) :
    ∃ outcome', Verdict others requirement outcome' ∧ outcome.SameUpToOrder outcome' := by
  have hmem (attr : Attribute) : attr ∈ others ↔ attr ∈ attrs := h.mem_iff.symm
  cases hv with
  | carried hnamed => exact ⟨_, .carried (by simpa only [hmem]), .satisfied⟩
  | lacking hnone => exact ⟨_, .lacking (by simpa only [hmem]), .missing _⟩
  | absent hnone => exact ⟨_, .absent (by simpa only [hmem]), .missing _⟩
  | @refused name allowed bad hbad hne =>
    have hperm := h.filter fun attr => attr.name = name ∧ attr.value ∉ allowed
    rw [hbad] at hperm
    exact ⟨_, .refused rfl fun hnil => hne (List.perm_nil.mp (hnil ▸ hperm)), .invalid _ hperm⟩
  | allowed hnamed hall => exact ⟨_, .allowed (by simpa only [hmem]) (by simpa only [hmem]), .satisfied⟩

theorem sameUpToOrder_of_perm (requirement : Requirement) (h : attrs.Perm others) :
    (requirement.check attrs).SameUpToOrder (requirement.check others) := by
  obtain ⟨outcome, hv, hsame⟩ := (verdict_check requirement attrs).exists_of_perm h
  rwa [hv.check_eq]

/-! ## What is looked at -/

/-- Attributes that a requirement does not mention may be left out. -/
theorem Verdict.filter_mentions (hv : Verdict attrs requirement outcome) :
    Verdict (attrs.filter fun attr => attr.name ∈ namesOf requirement) requirement outcome := by
  cases hv with
  | carried h =>
    obtain ⟨attr, hattr, hname⟩ := h
    exact .carried ⟨attr, List.mem_filter.mpr ⟨hattr, decide_eq_true hname⟩, hname⟩
  | lacking h => exact .lacking fun attr hattr => h attr (List.mem_of_mem_filter hattr)
  | absent h => exact .absent fun attr hattr => h attr (List.mem_of_mem_filter hattr)
  | refused hbad hne =>
    refine .refused ?_ hne
    rw [List.filter_filter, ← hbad]
    refine List.filter_congr fun attr _ => ?_
    rw [Bool.eq_iff_iff]
    simp +contextual [namesOf]
  | allowed h hall =>
    obtain ⟨attr, hattr, hname⟩ := h
    exact .allowed ⟨attr, List.mem_filter.mpr ⟨hattr, decide_eq_true (List.mem_singleton.mpr hname)⟩, hname⟩
      fun a ha => hall a (List.mem_of_mem_filter ha)

theorem check_filter_mentions (requirement : Requirement) (attrs : List Attribute) :
    requirement.check (attrs.filter fun attr => attr.name ∈ namesOf requirement) = requirement.check attrs :=
  (verdict_check requirement attrs).filter_mentions.check_eq

/-- **A requirement is checked in two phases, and order does not matter.**  The outcome of a check is the one that is
due.  Rearranging the attributes changes at most the order of those that are objected to; with further attributes behind
them no name gets lost; and attributes that the requirement does not mention make no difference. -/
theorem check_in_two_phases (requirement : Requirement) (attrs : List Attribute) :
    (∀ outcome, requirement.check attrs = outcome ↔ Verdict attrs requirement outcome) ∧
    (∀ others, attrs.Perm others → (requirement.check attrs).SameUpToOrder (requirement.check others)) ∧
    (∀ more, (∀ name, requirement.check attrs ≠ .missing name) →
      ∀ name, requirement.check (attrs ++ more) ≠ .missing name) ∧
    ∀ others, attrs.filter (fun attr => attr.name ∈ namesOf requirement) =
        others.filter (fun attr => attr.name ∈ namesOf requirement) →
      requirement.check attrs = requirement.check others := by
  refine ⟨fun outcome => check_eq_iff_verdict, fun others h => sameUpToOrder_of_perm requirement h,
    fun more hnamed name hmissing => ?_, fun others h => ?_⟩
  · have hall := exists_check_eq_missing_iff.mp ⟨name, hmissing⟩
    obtain ⟨missing, hmissing⟩ := exists_check_eq_missing_iff.mpr (List.forall_mem_append.mp hall).1
    exact hnamed missing hmissing
  · rw [← check_filter_mentions requirement attrs, h, check_filter_mentions]

/-- The type of a cache is one of two. -/
def cacheType : Requirement := .valued "type" ["relative", "daily"]

/-- Two types that are not allowed, one that is, and an attribute that `cacheType` does not mention. -/
def cacheAttrs : List Attribute :=
  [⟨"type", "weekly", 9⟩, ⟨"hour", "1", 23⟩, ⟨"type", "daily", 32⟩, ⟨"type", "hourly", 45⟩]

theorem check_in_two_phases_cacheType :
    Verdict cacheAttrs cacheType (.invalid [⟨"type", "weekly", 9⟩, ⟨"type", "hourly", 45⟩] ["relative", "daily"]) ∧
    (cacheAttrs.Perm cacheAttrs.reverse ∧
      (cacheType.check cacheAttrs).SameUpToOrder (cacheType.check cacheAttrs.reverse)) ∧
    ((∀ name, cacheType.check cacheAttrs ≠ .missing name) ∧
      ∀ name, cacheType.check (cacheAttrs ++ cacheAttrs) ≠ .missing name) ∧
    cacheType.check cacheAttrs = cacheType.check (cacheAttrs.eraseIdx 1) := by
  obtain ⟨hverdict, hperm, happend, hmentions⟩ := check_in_two_phases cacheType cacheAttrs
  have hreverse : cacheAttrs.Perm cacheAttrs.reverse := cacheAttrs.reverse_perm.symm
  have hinvalid : cacheType.check cacheAttrs =
      .invalid [⟨"type", "weekly", 9⟩, ⟨"type", "hourly", 45⟩] ["relative", "daily"] := by decide
  have hnamed (name : String) : cacheType.check cacheAttrs ≠ .missing name := by
    rw [hinvalid]
    exact nofun
  exact ⟨(hverdict _).mp hinvalid, ⟨hreverse, hperm _ hreverse⟩, ⟨hnamed, happend _ hnamed⟩,
    hmentions _ (by decide)⟩

end Requirement

end TagLint

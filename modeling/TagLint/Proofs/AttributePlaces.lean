import TagLint.Proofs.NameRepeats
import TagLint.Proofs.TagLayout
import TagLint.Proofs.TextPlaces
import TagLint.Proofs.ValuePasses
import TagLint.Rule.TagsCheck

/-!
# The places of attribute findings

`mem_findings_iff` sorts what the two attribute rules report into faults of the tag (`TagFault`) and faults of one of
its attributes (`AttrFault`), which is told from others of the same name by the attributes before it.  For a built
tag that stands in a text, `findings_start_at_attribute` says that the diagnostic of an attribute's fault starts at
the name of that attribute.
-/

namespace TagLint

open OpenTag Text

/-! ## What the rules object to -/

/-- The attributes of a name. -/
def sameName (attr other : Attribute) : Bool := other.name == attr.name

/-- A finding about the tag itself: how it is closed, or an attribute that it lacks. -/
inductive TagFault (specs : TagSpecs) (tag : OpenTag) : Finding → Prop
  | closing {spec : TagSpec} {f : Finding} (hspec : specs.find? tag.name = some spec)
      (hf : f ∈ TagsCheck.closingFindings tag spec.closing) : TagFault specs tag f
  | missing {spec : TagSpec} {requirement : Requirement} {name : String} (hspec : specs.find? tag.name = some spec)
      (hreq : requirement ∈ spec.required) (hmissing : requirement.check tag.attrs = .missing name) :
      TagFault specs tag (TagsCheck.atTag tag ("The <" ++ tag.name ++ "> tag must have attr '" ++ name ++ "'."))

/-- A finding about the attribute `attr` of a tag, the one that stands behind the attributes `earlier`: another value
than the allowed ones, the first of a redundant name, or the second of any name. -/
inductive AttrFault (specs : TagSpecs) (tag : OpenTag) (earlier : List Attribute) (attr : Attribute) : Finding → Prop
  | required {spec : TagSpec} {allowed : List String} (hspec : specs.find? tag.name = some spec)
      (hreq : .valued attr.name allowed ∈ spec.required) (hvalue : attr.value ∉ allowed) :
      AttrFault specs tag earlier attr (TagsCheck.valueFinding tag "must have" allowed attr)
  | optional {spec : TagSpec} {allowed : List String} (hspec : specs.find? tag.name = some spec)
      (hreq : .valued attr.name allowed ∈ spec.optional) (hvalue : attr.value ∉ allowed) :
      AttrFault specs tag earlier attr (TagsCheck.valueFinding tag "can have" allowed attr)
  | redundant {spec : TagSpec} (hspec : specs.find? tag.name = some spec) (hname : attr.name ∈ spec.redundant)
      (hfirst : earlier.countP (sameName attr) = 0) :
      AttrFault specs tag earlier attr (TagsCheck.atAttr tag attr
        ("The attr '" ++ attr.name ++ "' is redundant for <" ++ tag.name ++ "> and should be omitted."))
  | duplicate (hexempt : ¬ sameFolded tag.name AttrNoDuplication.exemptTag)
      (hsecond : earlier.countP (sameName attr) = 1) :
      AttrFault specs tag earlier attr (AttrNoDuplication.finding tag attr)

section

variable {specs : TagSpecs} {tag : OpenTag} {f : Finding}

theorem AttrFault.line_eq {earlier : List Attribute} {attr : Attribute} (h : AttrFault specs tag earlier attr f) :
    f.line = tag.line := by cases h <;> rfl

theorem AttrFault.col_eq {earlier : List Attribute} {attr : Attribute} (h : AttrFault specs tag earlier attr f) :
    f.col = tag.attrCol attr := by cases h <;> rfl

/-! ## Sorting the findings -/

/-- The attributes that a check of values objects to. -/
theorem exists_check_eq_invalid_iff {requirement : Requirement} {attrs : List Attribute} {attr : Attribute}
    {allowed : List String} :
    (∃ bad, requirement.check attrs = .invalid bad allowed ∧ attr ∈ bad) ↔
      requirement = .valued attr.name allowed ∧ attr ∈ attrs ∧ attr.value ∉ allowed := by
  constructor
  · rintro ⟨bad, hcheck, hattr⟩
    cases requirement with
    | oneOf names =>
      rw [Requirement.check] at hcheck
      split at hcheck <;> cases hcheck
    | valued name values =>
      simp only [Requirement.check_valued_eq] at hcheck
      split_ifs at hcheck
      cases hcheck
      obtain ⟨hnamed, hvalue⟩ := List.mem_filter.mp hattr
      obtain ⟨hmem, hname⟩ := List.mem_filter.mp hnamed
      refine ⟨by rw [beq_iff_eq.mp hname], hmem, fun hin => ?_⟩
      simp [hin] at hvalue
  · rintro ⟨rfl, hmem, hvalue⟩
    have hnamed : attr ∈ attrs.filter (·.name == attr.name) := List.mem_filter.mpr ⟨hmem, beq_self_eq_true _⟩
    have hbad : attr ∈ (attrs.filter (·.name == attr.name)).filter fun a => !allowed.contains a.value :=
      List.mem_filter.mpr ⟨hnamed, by simpa using hvalue⟩
    refine ⟨_, ?_, hbad⟩
    simp only [Requirement.check_valued_eq]
    rw [if_neg fun h => List.ne_nil_of_mem hnamed (List.isEmpty_iff.mp h),
      if_neg fun h => List.ne_nil_of_mem hbad (List.isEmpty_iff.mp h)]

/-- The findings about wrong values, whatever their wording. -/
theorem exists_mem_invalid_iff {requirement : Requirement} {verb : String} :
    (∃ bad allowed, requirement.check tag.attrs = .invalid bad allowed ∧
        f ∈ bad.map (TagsCheck.valueFinding tag verb allowed)) ↔
      ∃ attr ∈ tag.attrs, ∃ allowed, requirement = .valued attr.name allowed ∧ attr.value ∉ allowed ∧
        f = TagsCheck.valueFinding tag verb allowed attr := by
  constructor
  · rintro ⟨bad, allowed, hcheck, hf⟩
    obtain ⟨attr, hbad, rfl⟩ := List.mem_map.mp hf
    obtain ⟨hreq, hmem, hvalue⟩ := exists_check_eq_invalid_iff.mp ⟨bad, hcheck, hbad⟩
    exact ⟨attr, hmem, allowed, hreq, hvalue, rfl⟩
  · rintro ⟨attr, hmem, allowed, hreq, hvalue, rfl⟩
    obtain ⟨bad, hcheck, hbad⟩ := exists_check_eq_invalid_iff.mpr ⟨hreq, hmem, hvalue⟩
    exact ⟨bad, allowed, hcheck, List.mem_map_of_mem hbad⟩

theorem mem_requiredFindings_iff {requirement : Requirement} :
    f ∈ TagsCheck.requiredFindings tag requirement ↔
      (∃ name, requirement.check tag.attrs = .missing name ∧
        f = TagsCheck.atTag tag ("The <" ++ tag.name ++ "> tag must have attr '" ++ name ++ "'.")) ∨
      ∃ attr ∈ tag.attrs, ∃ allowed, requirement = .valued attr.name allowed ∧ attr.value ∉ allowed ∧
        f = TagsCheck.valueFinding tag "must have" allowed attr := by
  rw [← exists_mem_invalid_iff, TagsCheck.requiredFindings]
  cases requirement.check tag.attrs <;> simp

theorem mem_optionalFindings_iff {requirement : Requirement} :
    f ∈ TagsCheck.optionalFindings tag requirement ↔
      ∃ attr ∈ tag.attrs, ∃ allowed, requirement = .valued attr.name allowed ∧ attr.value ∉ allowed ∧
        f = TagsCheck.valueFinding tag "can have" allowed attr := by
  cases requirement with
  | oneOf names => simp [TagsCheck.optionalFindings, Requirement.hasAllowedValues]
  | valued name values =>
    rw [← exists_mem_invalid_iff, TagsCheck.optionalFindings, Requirement.hasAllowedValues, if_pos rfl]
    cases (Requirement.valued name values).check tag.attrs <;> simp

/-- A redundant name is reported where it stands first. -/
theorem mem_redundantFindings_iff {name : String} :
    f ∈ TagsCheck.redundantFindings tag name ↔
      ∃ earlier attr later, tag.attrs = earlier ++ attr :: later ∧ attr.name = name ∧
        earlier.countP (sameName attr) = 0 ∧ f = TagsCheck.atAttr tag attr
          ("The attr '" ++ attr.name ++ "' is redundant for <" ++ tag.name ++ "> and should be omitted.") := by
  have hfirst := @getElem?_filter_eq_some_iff Attribute (·.name == name) tag.attrs 0
  unfold TagsCheck.redundantFindings attrsNamed
  constructor
  · intro h
    split at h
    · rename_i attr rest hnamed
      rw [hnamed, List.getElem?_cons_zero] at hfirst
      obtain ⟨earlier, later, hattrs, hname, hcount⟩ := hfirst.mp rfl
      obtain rfl := beq_iff_eq.mp hname
      exact ⟨earlier, attr, later, hattrs, rfl, hcount, List.mem_singleton.mp h⟩
    · cases h
  · rintro ⟨earlier, attr, later, hattrs, rfl, hcount, rfl⟩
    have hhead := hfirst.mpr ⟨earlier, later, hattrs, beq_self_eq_true _, hcount⟩
    split
    · rename_i other rest hnamed
      rw [hnamed, List.getElem?_cons_zero, Option.some.injEq] at hhead
      subst hhead
      exact List.mem_singleton_self _
    · rename_i hnamed
      rw [hnamed] at hhead
      cases hhead

/-- A repeated name is reported where it stands for the second time. -/
theorem mem_repeats_iff {attrs : List Attribute} {attr : Attribute} :
    attr ∈ AttrNoDuplication.repeats attrs ↔
      ∃ earlier later, attrs = earlier ++ attr :: later ∧ earlier.countP (sameName attr) = 1 := by
  rw [AttrNoDuplication.repeats_eq, List.mem_filterMap]
  constructor
  · rintro ⟨name, -, hsecond⟩
    obtain ⟨earlier, later, hattrs, hname, hcount⟩ := getElem?_filter_eq_some_iff.mp hsecond
    obtain rfl := beq_iff_eq.mp hname
    exact ⟨earlier, later, hattrs, hcount⟩
  · rintro ⟨earlier, later, hattrs, hcount⟩
    have hmem : attr ∈ attrs := hattrs ▸ List.mem_append_right earlier List.mem_cons_self
    exact ⟨attr.name, ((AttrNoDuplication.notes_foldl attrs).mem_iff _).mpr (List.mem_map_of_mem hmem),
      getElem?_filter_eq_some_iff.mpr ⟨earlier, later, hattrs, beq_self_eq_true _, hcount⟩⟩

/-- The tag rule reports the faults of its spec. -/
theorem mem_tagsCheck_iff :
    f ∈ TagsCheck.check specs (.openTag tag) ↔ ∃ spec, specs.find? tag.name = some spec ∧
      (f ∈ TagsCheck.closingFindings tag spec.closing ∨
        (∃ requirement ∈ spec.required, f ∈ TagsCheck.requiredFindings tag requirement) ∨
        (∃ requirement ∈ spec.optional, f ∈ TagsCheck.optionalFindings tag requirement) ∨
        ∃ name ∈ spec.redundant, f ∈ TagsCheck.redundantFindings tag name) := by
  cases hspec : specs.find? tag.name with
  | none => simp [TagsCheck.check, hspec]
  | some spec => simp [TagsCheck.check, hspec, TagsCheck.checkTag]

theorem mem_attrNoDuplication_iff :
    f ∈ AttrNoDuplication.check (.openTag tag) ↔ ¬ sameFolded tag.name AttrNoDuplication.exemptTag ∧
      ∃ earlier attr later, tag.attrs = earlier ++ attr :: later ∧ earlier.countP (sameName attr) = 1 ∧
        f = AttrNoDuplication.finding tag attr := by
  rw [AttrNoDuplication.check, AttrNoDuplication.checkTag]
  split_ifs with hexempt
  · simp [hexempt]
  · constructor
    · intro h
      obtain ⟨attr, hattr, rfl⟩ := List.mem_map.mp h
      obtain ⟨earlier, later, hattrs, hcount⟩ := mem_repeats_iff.mp hattr
      exact ⟨hexempt, earlier, attr, later, hattrs, hcount, rfl⟩
    · rintro ⟨-, earlier, attr, later, hattrs, hcount, rfl⟩
      exact List.mem_map_of_mem (mem_repeats_iff.mpr ⟨earlier, later, hattrs, hcount⟩)

/-- Every finding of the two rules is a fault of the tag or of one of its attributes, and these are all reported. -/
theorem mem_findings_iff :
    (f ∈ TagsCheck.check specs (.openTag tag) ∨ f ∈ AttrNoDuplication.check (.openTag tag)) ↔
      TagFault specs tag f ∨
      ∃ earlier attr later, tag.attrs = earlier ++ attr :: later ∧ AttrFault specs tag earlier attr f := by
  rw [mem_tagsCheck_iff, mem_attrNoDuplication_iff]
  constructor
  · rintro (⟨spec, hspec, hf | ⟨r, hr, hf⟩ | ⟨r, hr, hf⟩ | ⟨name, hname, hf⟩⟩ |
      ⟨hexempt, earlier, attr, later, hattrs, hcount, rfl⟩)
    · exact .inl (.closing hspec hf)
    · rcases mem_requiredFindings_iff.mp hf with ⟨name, hmissing, rfl⟩ | ⟨attr, hmem, allowed, rfl, hvalue, rfl⟩
      · exact .inl (.missing hspec hr hmissing)
      · obtain ⟨earlier, later, hattrs⟩ := List.append_of_mem hmem
        exact .inr ⟨earlier, attr, later, hattrs, .required hspec hr hvalue⟩
    · obtain ⟨attr, hmem, allowed, rfl, hvalue, rfl⟩ := mem_optionalFindings_iff.mp hf
      obtain ⟨earlier, later, hattrs⟩ := List.append_of_mem hmem
      exact .inr ⟨earlier, attr, later, hattrs, .optional hspec hr hvalue⟩
    · obtain ⟨earlier, attr, later, hattrs, rfl, hcount, rfl⟩ := mem_redundantFindings_iff.mp hf
      exact .inr ⟨earlier, attr, later, hattrs, .redundant hspec hname hcount⟩
    · exact .inr ⟨earlier, attr, later, hattrs, .duplicate hexempt hcount⟩
  · rintro (hf | ⟨earlier, attr, later, hattrs, hf⟩)
    · cases hf with
      | closing hspec hf => exact .inl ⟨_, hspec, .inl hf⟩
      | missing hspec hreq hmissing =>
        exact .inl ⟨_, hspec, .inr (.inl ⟨_, hreq, mem_requiredFindings_iff.mpr (.inl ⟨_, hmissing, rfl⟩)⟩)⟩
    · have hmem : attr ∈ tag.attrs := hattrs ▸ List.mem_append_right earlier List.mem_cons_self
      cases hf with
      | required hspec hreq hvalue =>
        have hfinding := mem_requiredFindings_iff.mpr (.inr ⟨attr, hmem, _, rfl, hvalue, rfl⟩)
        exact .inl ⟨_, hspec, .inr (.inl ⟨_, hreq, hfinding⟩)⟩
      | optional hspec hreq hvalue =>
        have hfinding := mem_optionalFindings_iff.mpr ⟨attr, hmem, _, rfl, hvalue, rfl⟩
        exact .inl ⟨_, hspec, .inr (.inr (.inl ⟨_, hreq, hfinding⟩))⟩
      | redundant hspec hname hfirst =>
        have hfinding := mem_redundantFindings_iff.mpr ⟨earlier, attr, later, hattrs, rfl, hfirst, rfl⟩
        exact .inl ⟨_, hspec, .inr (.inr (.inr ⟨_, hname, hfinding⟩))⟩
      | duplicate hexempt hsecond => exact .inr ⟨hexempt, earlier, attr, later, hattrs, hsecond, rfl⟩

end

/-! ## Findings of a tag in a text -/

/-- The column of an attribute does not reach the end of the range on a line of fewer units than that. -/
theorem toNat_attrCol {tag : OpenTag} (h : tag.LaidOut) {earlier later : List Attribute} {attr : Attribute}
    (hattrs : tag.attrs = earlier ++ attr :: later) {line : List Char} (hcol : tag.col.toNat = line.length + 1)
    (hunits : units16 (line ++ tag.raw.toList) < UInt32.size) :
    (tag.attrCol attr).toNat = (line ++ tag.upTo earlier).length + 1 := by
  obtain ⟨rest, hraw⟩ := h.exists_raw_eq hattrs
  have hlen := length_le_units16 (line ++ tag.raw.toList)
  have hsize : UInt32.size = 4294967296 := rfl
  rw [hraw] at hlen
  simp only [List.length_append, List.length_singleton] at hlen ⊢
  rw [attrCol, Coord.toNat_satAdd, h.offset_eq earlier attr later hattrs, Coord.toNat_clamp, hcol]
  rw [hraw] at hunits
  omega

/-- A finding about an attribute of a tag in a text starts at the name of the attribute. -/
theorem AttrFault.start_eq {specs : TagSpecs} {tag : OpenTag} {earlier later : List Attribute} {attr : Attribute}
    {f : Finding} (hf : AttrFault specs tag earlier attr f) (h : tag.LaidOut)
    (hattrs : tag.attrs = earlier ++ attr :: later) {before : List Char} (hraw : '\n' ∉ tag.raw.toList)
    (hline : tag.line.toNat = before.count '\n' + 1) (hcol : tag.col.toNat = (lastLine before).length + 1)
    (hunits : units16 (lastLine before ++ tag.raw.toList) < UInt32.size) (rest : List Char) :
    let text := before ++ (tag.raw.toList ++ rest)
    let place := before ++ tag.upTo earlier
    let start := (Report.diagnostic text f).range.start
    place ++ attr.name.toList <+: text ∧ (start.line.toNat, start.character.toNat) = placeAfter place := by
  intro text place start
  obtain ⟨behind, hcut⟩ := h.exists_raw_eq hattrs
  have hnl : '\n' ∉ tag.upTo earlier ∧ '\n' ∉ attr.name.toList ++ behind ++ ['>'] := by
    rw [hcut] at hraw
    exact ⟨fun hm => hraw (List.mem_append_left _ hm), fun hm => hraw (List.mem_append_right _ hm)⟩
  have hplace : lastLine place = lastLine before ++ tag.upTo earlier := lastLine_append hnl.1
  have hcount : place.count '\n' = before.count '\n' := by
    rw [List.count_append, List.count_eq_zero.mpr hnl.1, Nat.add_zero]
  have htext : text = place ++ (attr.name.toList ++ behind ++ ['>'] ++ rest) := by
    simp only [text, place, hcut, List.append_assoc]
  constructor
  · refine ⟨behind ++ ['>'] ++ rest, ?_⟩
    simp only [htext, List.append_assoc]
  · have hcol' : f.col.toNat = (lastLine place).length + 1 := by
      rw [hf.col_eq, hplace]
      exact toNat_attrCol h hattrs hcol hunits
    have hunits' : units16 (lastLine place) < UInt32.size := by
      rw [hcut, ← List.append_assoc, units16_append] at hunits
      rw [hplace]
      exact Nat.lt_of_le_of_lt (Nat.le_add_right _ _) hunits
    have hstart := Report.range_start hnl.2 (by decide) (hf.line_eq ▸ hcount ▸ hline) hcol' hunits' rest
    rw [← htext] at hstart
    exact hstart

/-- **Attribute findings point at the attribute.**  A built tag stands in a text behind `before`, on the line and at
the column that it names, and the line is shorter than `2 ^ 32` units up to the end of the tag.  What the two rules
report are the faults of the tag and of its attributes, and the diagnostic of a fault of an attribute starts at the
place of the name of that very attribute. -/
theorem findings_start_at_attribute (name : String) (line col : Coord) (steps : List Step) (specs : TagSpecs)
    (before rest : List Char) :
    let tag := build name line col steps
    let text := before ++ (tag.raw.toList ++ rest)
    '\n' ∉ tag.raw.toList → tag.line.toNat = before.count '\n' + 1 → tag.col.toNat = (lastLine before).length + 1 →
    units16 (lastLine before ++ tag.raw.toList) < UInt32.size →
    (∀ f, (f ∈ TagsCheck.check specs (.openTag tag) ∨ f ∈ AttrNoDuplication.check (.openTag tag)) ↔
      TagFault specs tag f ∨
      ∃ earlier attr later, tag.attrs = earlier ++ attr :: later ∧ AttrFault specs tag earlier attr f) ∧
    ∀ earlier attr later f, tag.attrs = earlier ++ attr :: later → AttrFault specs tag earlier attr f →
      let place := before ++ tag.upTo earlier
      let start := (Report.diagnostic text f).range.start
      place ++ attr.name.toList <+: text ∧ (start.line.toNat, start.character.toNat) = placeAfter place := by
  intro tag text hraw hline hcol hunits
  refine ⟨fun f => mem_findings_iff, fun earlier attr later f hattrs hf => ?_⟩
  exact hf.start_eq (laidOut_build name line col steps) hattrs hraw hline hcol hunits rest

/-- Steps that repeat an attribute, with characters of one, two and four bytes. -/
def sampleSteps : List Step := [.attr "𝒜" "é", .attr "src" "x", .selfClosing, .attr "𝒜" "😀"]

/-- The tag of the sample steps. -/
def sampleTag : OpenTag := build "img" 2 4 sampleSteps

/-- The repeat on the sample tag. -/
def sampleRepeat : Attribute := ⟨"𝒜", "😀", 19⟩

/-- What stands before the sample tag. -/
def sampleBefore : List Char := "ü😀\n é😀".toList

theorem findings_start_at_attribute_sample :
    let finding := AttrNoDuplication.finding sampleTag sampleRepeat
    let start := (Report.diagnostic (sampleBefore ++ (sampleTag.raw.toList ++ ['\r', '\n'])) finding).range.start
    ('\n' ∉ sampleTag.raw.toList ∧ sampleTag.line.toNat = sampleBefore.count '\n' + 1 ∧
      sampleTag.col.toNat = (lastLine sampleBefore).length + 1 ∧
      units16 (lastLine sampleBefore ++ sampleTag.raw.toList) < UInt32.size) ∧
    AttrFault TagSpecs.builtin sampleTag (sampleTag.attrs.take 2) sampleRepeat finding ∧
    finding ∈ AttrNoDuplication.check (.openTag sampleTag) ∧
    (start.line.toNat, start.character.toNat) = (1, 24) := by
  have hplace : '\n' ∉ sampleTag.raw.toList ∧ sampleTag.line.toNat = sampleBefore.count '\n' + 1 ∧
      sampleTag.col.toNat = (lastLine sampleBefore).length + 1 ∧
      units16 (lastLine sampleBefore ++ sampleTag.raw.toList) < UInt32.size := by decide
  obtain ⟨hraw, hline, hcol, hunits⟩ := hplace
  have hfault : AttrFault TagSpecs.builtin sampleTag (sampleTag.attrs.take 2) sampleRepeat
      (AttrNoDuplication.finding sampleTag sampleRepeat) := .duplicate (by decide) (by decide)
  have h := findings_start_at_attribute "img" 2 4 sampleSteps TagSpecs.builtin sampleBefore ['\r', '\n'] hraw hline hcol
    hunits
  have hstart := (h.2 (sampleTag.attrs.take 2) sampleRepeat [] _ (by decide) hfault).2
  exact ⟨⟨hraw, hline, hcol, hunits⟩, hfault, by decide, hstart⟩

end TagLint

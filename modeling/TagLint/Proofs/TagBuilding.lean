import Mathlib.Data.List.Induction
import TagLint.Proofs.TagLayout
import TagLint.Proofs.TextSlices

/-!
# Building tags — the text of a tag and the steps that built it

Where among the steps a tag is closed in itself does not matter.

* `selfClosing_withAttr`: closing and adding an attribute may change places, so closing may come last (`build_eq`).
* `CutsClosing tag`: the closing of the tag is cut off at the end of a character, whether bytes or characters are
  counted.  `LaidOut.cutsClosing` says that it is so for every tag that is laid out.
* **`build_consistent`**: the text and the offsets of a built tag, read off its steps.
-/

namespace TagLint.OpenTag

open Text

variable {tag : OpenTag} {name : String} {line col : Coord}

/-! ## What the steps say -/

/-- The attribute that a step adds, by name and value. -/
def Step.attr? : Step → Option (String × String)
  | .attr name value => some (name, value)
  | .selfClosing => none

/-- The attributes that steps add, in order. -/
def added (steps : List Step) : List (String × String) := steps.filterMap Step.attr?

/-- An attribute as it is written, with the blank before it. -/
def written (attr : String × String) : String := " " ++ attr.1 ++ "=\"" ++ attr.2 ++ "\""

theorem build_concat (steps : List Step) (step : Step) :
    build name line col (steps ++ [step]) = step.apply (build name line col steps) := List.foldl_concat ..

theorem added_concat (steps : List Step) (step : Step) :
    added (steps ++ [step]) = added steps ++ step.attr?.toList := by
  rw [added, added, List.filterMap_append]
  cases step <;> rfl

@[simp] theorem name_selfClosing (tag : OpenTag) : tag.selfClosing.name = tag.name := by
  unfold selfClosing
  split <;> rfl

@[simp] theorem attrs_selfClosing (tag : OpenTag) : tag.selfClosing.attrs = tag.attrs := by
  unfold selfClosing
  split <;> rfl

@[simp] theorem selfClosed_selfClosing (tag : OpenTag) : tag.selfClosing.selfClosed = true := by
  unfold selfClosing
  split
  · assumption
  · rfl

theorem name_build (steps : List Step) : (build name line col steps).name = name := by
  induction steps using List.reverseRecOn with
  | nil => rfl
  | append_singleton steps step ih =>
    rw [build_concat]
    cases step with
    | attr => exact ih
    | selfClosing => exact (name_selfClosing _).trans ih

theorem attrs_build (steps : List Step) :
    (build name line col steps).attrs.map (fun attr => (attr.name, attr.value)) = added steps := by
  induction steps using List.reverseRecOn with
  | nil => rfl
  | append_singleton steps step ih =>
    rw [build_concat, added_concat, ← ih]
    cases step with
    | attr n v => simp [Step.apply, withAttr, Step.attr?]
    | selfClosing => simp [Step.apply, Step.attr?]

theorem selfClosed_build (steps : List Step) :
    (build name line col steps).selfClosed = decide (Step.selfClosing ∈ steps) := by
  induction steps using List.reverseRecOn with
  | nil => rfl
  | append_singleton steps step ih =>
    rw [build_concat]
    cases step with
    | attr n v => simpa [Step.apply, withAttr] using ih
    | selfClosing => simp [Step.apply]

/-! ## The text -/

theorem attrText_eq_written (attr : Attribute) : attrText attr = (written (attr.name, attr.value)).toList := by
  simp [attrText, written]

theorem closing_build (steps : List Step) :
    (build name line col steps).closing = if Step.selfClosing ∈ steps then "/>" else ">" := by
  rw [closing, selfClosed_build]
  simp

theorem raw_build (steps : List Step) :
    (build name line col steps).raw =
      "<" ++ name ++ String.join ((added steps).map written) ++ if Step.selfClosing ∈ steps then "/>" else ">" := by
  have hattrs : (build name line col steps).attrs.flatMap attrText =
      (String.join ((added steps).map written)).toList := by
    rw [String.toList_join, ← @attrs_build name line col steps, List.map_map, List.flatMap_map]
    exact List.flatMap_congr fun attr _ => attrText_eq_written attr
  apply String.toList_injective
  rw [(laidOut_build name line col steps).raw_eq, hattrs, name_build, closing_build]
  simp only [String.toList_append]
  rfl

/-! ## Where the closing is cut off -/

/-- Cut off by its bytes, the closing goes at the end of a character, and goes as it does by its characters. -/
structure CutsClosing (tag : OpenTag) : Prop where
  cuts : Cuts tag.raw 0 (tag.raw.utf8ByteSize - tag.closing.utf8ByteSize)
  extract_eq : String.Pos.Raw.extract tag.raw ⟨0⟩ ⟨tag.raw.utf8ByteSize - tag.closing.utf8ByteSize⟩ =
    withoutLast tag.closing.length tag.raw

theorem LaidOut.cutsClosing (h : tag.LaidOut) : tag.CutsClosing := by
  set body := '<' :: tag.name.toList ++ tag.attrs.flatMap attrText with hbody
  have hraw : tag.raw.toList = [] ++ (body ++ tag.closing.toList) := h.raw_eq
  have hbytes : byteLength ([] ++ body) = tag.raw.utf8ByteSize - tag.closing.utf8ByteSize := by
    rw [← byteLength_toList tag.raw, ← byteLength_toList tag.closing, hraw]
    simp
  have hleft : withoutLast tag.closing.length tag.raw = String.ofList body :=
    String.toList_injective (by rw [toList_withoutLast h.raw_eq String.length_toList.symm, String.toList_ofList])
  constructor
  · rw [← hbytes]
    exact cuts_byteLength hraw
  · rw [← hbytes, hleft]
    exact extract_byteLength hraw

/-! ## The order of the steps -/

theorem selfClosing_selfClosing (tag : OpenTag) : tag.selfClosing.selfClosing = tag.selfClosing := by
  rw [selfClosing.eq_def tag.selfClosing, if_pos (selfClosed_selfClosing tag)]

theorem withoutLast_append {n : ℕ} (s : String) {t : String} (h : n = t.length) : withoutLast n (s ++ t) = s :=
  String.toList_injective (toList_withoutLast String.toList_append (h.trans String.length_toList.symm))

/-- Closing a tag in itself and adding an attribute may change places. -/
theorem selfClosing_withAttr (tag : OpenTag) (n v : String) :
    (tag.withAttr n v).selfClosing = tag.selfClosing.withAttr n v := by
  by_cases hclosed : tag.selfClosed
  · have hstill : (tag.withAttr n v).selfClosed := hclosed
    rw [selfClosing, if_pos hstill, selfClosing, if_pos hclosed]
  · -- the text without the closing is the same for `>` and for `/>`, and so is what is written behind it
    have hstill : ¬ (tag.withAttr n v).selfClosed := hclosed
    have hopen : tag.closing = ">" := if_neg hclosed
    have hslash : closing { tag with selfClosed := true, raw := withoutLast 1 tag.raw ++ "/>" } = "/>" := rfl
    have hbody : withoutLast "/>".length (withoutLast 1 tag.raw ++ "/>") = withoutLast 1 tag.raw :=
      withoutLast_append _ rfl
    have hlast : ">".length = 1 := rfl
    rw [selfClosing, if_neg hstill, selfClosing, if_neg hclosed]
    simp only [withAttr, hopen, hslash, hbody, hlast, withoutLast_append _ hlast.symm]

/-- A built tag is the one with the attributes alone, closed in itself at the end if it was at all. -/
theorem build_eq (steps : List Step) :
    build name line col steps =
      if Step.selfClosing ∈ steps
        then (build name line col ((added steps).map fun attr => .attr attr.1 attr.2)).selfClosing
        else build name line col ((added steps).map fun attr => .attr attr.1 attr.2) := by
  induction steps using List.reverseRecOn with
  | nil => rfl
  | append_singleton steps step ih =>
    rw [build_concat, ih, added_concat]
    cases step with
    | attr n v =>
      have hmem : Step.selfClosing ∈ steps ++ [.attr n v] ↔ Step.selfClosing ∈ steps := by simp
      have hlast : build name line col ((added steps ++ [(n, v)]).map fun attr => .attr attr.1 attr.2) =
          (build name line col ((added steps).map fun attr => .attr attr.1 attr.2)).withAttr n v := by
        rw [List.map_append]
        exact build_concat _ _
      simp only [hmem, Step.attr?, Option.toList_some, hlast, Step.apply]
      split
      · rw [selfClosing_withAttr]
      · rfl
    | selfClosing =>
      have hmem : Step.selfClosing ∈ steps ++ [.selfClosing] := by simp
      rw [if_pos hmem, Step.attr?, Option.toList_none, List.append_nil, Step.apply]
      split
      · exact selfClosing_selfClosing _
      · rfl

/-- **Building a tag.**  The text of a built tag is its name, its attributes in the order in which they were added, and
the closing.  The offset of an attribute is the number of the characters before its name (in a text of fewer than
`2 ^ 32` characters).  Whenever a closing is cut off, that is at the end of a character.  Closing a tag in itself twice
is closing it once, and may come before or after an attribute; so a tag is known from its attributes and from whether
it was closed in itself. -/
theorem build_consistent (name : String) (line col : Coord) (steps : List Step) :
    let tag := build name line col steps
    tag.raw =
      "<" ++ name ++ String.join ((added steps).map written) ++ (if Step.selfClosing ∈ steps then "/>" else ">") ∧
    tag.attrs.map (fun attr => (attr.name, attr.value)) = added steps ∧
    (tag.raw.length < UInt32.size → ∀ earlier attr later, tag.attrs = earlier ++ attr :: later →
      attr.offset.toNat = (tag.upTo earlier).length ∧ tag.upTo earlier ++ attr.name.toList <+: tag.raw.toList) ∧
    (∀ before, before <+: steps → (build name line col before).CutsClosing) ∧
    tag.selfClosing.selfClosing = tag.selfClosing ∧
    (∀ n v, (tag.withAttr n v).selfClosing = tag.selfClosing.withAttr n v) ∧
    ∀ steps', added steps' = added steps → (Step.selfClosing ∈ steps' ↔ Step.selfClosing ∈ steps) →
      build name line col steps' = tag := by
  intro tag
  have hlaid : tag.LaidOut := laidOut_build name line col steps
  refine ⟨raw_build steps, attrs_build steps, fun hlength earlier attr later hattrs => ?_,
    fun before _ => (laidOut_build name line col before).cutsClosing, selfClosing_selfClosing tag,
    selfClosing_withAttr tag, fun steps' hadded hclosing => ?_⟩
  · obtain ⟨rest, hrest⟩ := hlaid.exists_raw_eq hattrs
    have hfits : (tag.upTo earlier).length ≤ 4294967295 := by
      have hsize : UInt32.size = 4294967296 := rfl
      rw [← String.length_toList, hrest, List.length_append] at hlength
      omega
    refine ⟨?_, rest ++ ['>'], ?_⟩
    · rw [hlaid.offset_eq earlier attr later hattrs, Coord.toNat_clamp, Nat.min_eq_left hfits]
    · rw [hrest]
      simp only [List.append_assoc]
  · rw [build_eq steps', hadded]
    simp only [hclosing]
    exact (build_eq steps).symm

/-- Two attributes with characters of one to four bytes, the tag closed in itself between them and again behind. -/
def closedBetween : List Step := [.attr "é" "😀", .selfClosing, .attr "𝒜" "ü", .selfClosing]

theorem build_consistent_closedBetween :
    let tag := build "img" 3 5 closedBetween
    let last : Attribute := ⟨"𝒜", "ü", 11⟩
    tag.raw = "<img é=\"😀\" 𝒜=\"ü\"/>" ∧
    (tag.raw.length < UInt32.size ∧ tag.attrs = tag.attrs.take 1 ++ last :: [] ∧
      last.offset.toNat = (tag.upTo (tag.attrs.take 1)).length ∧
      tag.upTo (tag.attrs.take 1) ++ last.name.toList <+: tag.raw.toList) ∧
    ([.attr "é" "😀", .selfClosing] <+: closedBetween ∧ (build "img" 3 5 [.attr "é" "😀", .selfClosing]).CutsClosing) ∧
    build "img" 3 5 [.selfClosing, .attr "é" "😀", .attr "𝒜" "ü"] = tag := by
  intro tag last
  obtain ⟨-, -, hoffset, hcuts, -, -, hsame⟩ := build_consistent "img" 3 5 closedBetween
  have hshort : tag.raw.length < UInt32.size := by decide
  have hlast : tag.attrs = tag.attrs.take 1 ++ last :: [] := by decide
  have hfirst : [.attr "é" "😀", .selfClosing] <+: closedBetween := by decide
  exact ⟨by decide, ⟨hshort, hlast, hoffset hshort _ last [] hlast⟩, ⟨hfirst, hcuts _ hfirst⟩,
    hsame [.selfClosing, .attr "é" "😀", .attr "𝒜" "ü"] (by decide) (by decide)⟩

end TagLint.OpenTag

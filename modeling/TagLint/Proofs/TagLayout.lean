import TagLint.Tag.Occurrence

/-!
# The layout of built tags

A tag built from `OpenTag.new` by any steps is laid out (`OpenTag.laidOut_build`): its text is its name, its
attributes in order and its closing, and the offset of an attribute is the number of characters before its name.
`LaidOut.exists_raw_eq` cuts the text at the name of an attribute.
-/

namespace TagLint.OpenTag

/-! ## Building a tag -/

/-- One step of building a tag. -/
inductive Step
  | attr (name value : String)
  | selfClosing
  deriving DecidableEq

def Step.apply (tag : OpenTag) : Step → OpenTag
  | .attr name value => tag.withAttr name value
  | .selfClosing => tag.selfClosing

/-- The tag that some steps build. -/
def build (name : String) (line col : Coord) (steps : List Step) : OpenTag :=
  steps.foldl Step.apply (new name line col)

/-! ## The layout -/

/-- An attribute as it stands in a tag, with the blank before it. -/
def attrText (attr : Attribute) : List Char := ' ' :: attr.name.toList ++ '=' :: '"' :: attr.value.toList ++ ['"']

/-- The text of a tag before the name of the attribute that stands behind `earlier`. -/
def upTo (tag : OpenTag) (earlier : List Attribute) : List Char :=
  '<' :: tag.name.toList ++ earlier.flatMap attrText ++ [' ']

/-- The text of a tag and the offsets of its attributes agree. -/
structure LaidOut (tag : OpenTag) : Prop where
  raw_eq : tag.raw.toList = '<' :: tag.name.toList ++ tag.attrs.flatMap attrText ++ tag.closing.toList
  offset_eq : ∀ earlier attr later, tag.attrs = earlier ++ attr :: later →
    attr.offset = .clamp (tag.upTo earlier).length

theorem toList_withoutLast {raw : String} {body tail : List Char} {n : Nat} (h : raw.toList = body ++ tail)
    (hn : n = tail.length) : (withoutLast n raw).toList = body := by
  have hlen : raw.length - n = body.length := by
    rw [← String.length_toList, h, List.length_append, hn, Nat.add_sub_cancel]
  rw [withoutLast, String.toList_ofList, hlen, h, List.take_left]

theorem laidOut_new (name : String) (line col : Coord) : (new name line col).LaidOut where
  raw_eq := by simp [new, closing]
  offset_eq := fun _ _ _ h => by simp [new] at h

@[simp] theorem upTo_withAttr (tag : OpenTag) (name value : String) : (tag.withAttr name value).upTo = tag.upTo := rfl

theorem LaidOut.withAttr {tag : OpenTag} (h : tag.LaidOut) (name value : String) :
    (tag.withAttr name value).LaidOut := by
  have hbody : (withoutLast tag.closing.length tag.raw).toList =
      '<' :: tag.name.toList ++ tag.attrs.flatMap attrText := toList_withoutLast h.raw_eq String.length_toList.symm
  constructor
  · -- the closing is cut off and written again behind the attribute
    have hclosing : (tag.withAttr name value).closing = tag.closing := rfl
    simp only [hclosing]
    simp only [OpenTag.withAttr, String.toList_append, hbody, List.flatMap_append, List.flatMap_singleton, attrText]
    simp
  · intro earlier attr later heq
    rcases List.eq_nil_or_concat later with rfl | ⟨later, last, rfl⟩
    · -- the new attribute
      obtain ⟨rfl, hattr⟩ := List.append_inj' heq rfl
      cases hattr
      have hlen : (withoutLast tag.closing.length tag.raw).length + 1 = (tag.upTo tag.attrs).length := by
        rw [← String.length_toList, hbody]
        simp only [upTo, List.length_append, List.length_singleton]
      rw [hlen, upTo_withAttr]
    · rw [List.concat_eq_append, ← List.cons_append, ← List.append_assoc] at heq
      exact h.offset_eq earlier attr later (List.append_inj' heq rfl).1

theorem LaidOut.selfClosing {tag : OpenTag} (h : tag.LaidOut) : tag.selfClosing.LaidOut := by
  unfold OpenTag.selfClosing
  split
  · exact h
  · rename_i hopen
    have hbody : (withoutLast 1 tag.raw).toList = '<' :: tag.name.toList ++ tag.attrs.flatMap attrText := by
      refine toList_withoutLast h.raw_eq ?_
      rw [closing, if_neg hopen]
      rfl
    refine ⟨?_, h.offset_eq⟩
    simp only [String.toList_append, hbody, closing, if_true]

theorem LaidOut.apply {tag : OpenTag} (h : tag.LaidOut) (step : Step) : (step.apply tag).LaidOut := by
  cases step with
  | attr name value => exact h.withAttr name value
  | selfClosing => exact h.selfClosing

theorem LaidOut.foldl {tag : OpenTag} (h : tag.LaidOut) (steps : List Step) :
    (steps.foldl Step.apply tag).LaidOut := by
  induction steps generalizing tag with
  | nil => exact h
  | cons step steps ih => exact ih (h.apply step)

/-- **Built tags are laid out.** -/
theorem laidOut_build (name : String) (line col : Coord) (steps : List Step) : (build name line col steps).LaidOut :=
  (laidOut_new name line col).foldl steps

/-! ## Cutting the text -/

theorem closing_toList_eq (tag : OpenTag) : ∃ slash, tag.closing.toList = slash ++ ['>'] := by
  unfold closing
  split
  · exact ⟨['/'], rfl⟩
  · exact ⟨[], rfl⟩

/-- The text of a tag, cut before and behind the name of an attribute. -/
theorem LaidOut.exists_raw_eq {tag : OpenTag} (h : tag.LaidOut) {earlier later : List Attribute} {attr : Attribute}
    (hattrs : tag.attrs = earlier ++ attr :: later) :
    ∃ rest, tag.raw.toList = tag.upTo earlier ++ (attr.name.toList ++ rest ++ ['>']) := by
  obtain ⟨slash, hslash⟩ := tag.closing_toList_eq
  refine ⟨'=' :: '"' :: attr.value.toList ++ '"' :: later.flatMap attrText ++ slash, ?_⟩
  rw [h.raw_eq, hattrs, hslash, upTo]
  simp [attrText]

end TagLint.OpenTag

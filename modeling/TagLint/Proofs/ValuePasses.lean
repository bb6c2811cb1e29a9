import Mathlib.Data.List.Basic
import Mathlib.Data.List.Induction
import TagLint.Tag.Requirement

/-!
# Value passes — what a check of values notes about a name

A requirement for a value passes the attributes of a tag once.  `Pass.Notes` says what it knows behind some of them,
each step keeps it (`Pass.Notes.step`), so it holds at the end (`notes_foldl`).

**`check_valued_eq`**: what the pass comes to is whether the name is there, and then which of its values are allowed.
-/

namespace TagLint

namespace Requirement

variable {name : String} {allowed : List String} {pass : Pass} {attrs : List Attribute}

/-- What a pass has noted behind the attributes `attrs`. -/
structure Pass.Notes (name : String) (allowed : List String) (pass : Pass) (attrs : List Attribute) : Prop where
  present_eq : pass.present = !(attrs.filter (·.name == name)).isEmpty
  bad_eq : pass.bad = (attrs.filter (·.name == name)).filter fun attr => !allowed.contains attr.value

theorem notes_start : Pass.start.Notes name allowed [] := ⟨rfl, rfl⟩

theorem Pass.Notes.step (h : pass.Notes name allowed attrs) (attr : Attribute) :
    (pass.step name allowed attr).Notes name allowed (attrs ++ [attr]) := by
  by_cases hname : attr.name = name
  · have hnamed : (attrs ++ [attr]).filter (·.name == name) = attrs.filter (·.name == name) ++ [attr] := by
      simp [List.filter_append, hname]
    rw [Pass.step, if_pos (beq_iff_eq.mpr hname)]
    constructor
    · rw [hnamed]
      simp
    · rw [hnamed, List.filter_append, ← h.bad_eq]
      by_cases hvalue : attr.value ∈ allowed
      · simp [hvalue]
      · simp [hvalue]
  · have hnamed : (attrs ++ [attr]).filter (·.name == name) = attrs.filter (·.name == name) := by
      simp [List.filter_append, hname]
    rw [Pass.step, if_neg (mt beq_iff_eq.mp hname)]
    exact ⟨hnamed ▸ h.present_eq, hnamed ▸ h.bad_eq⟩

/-- At the end of a pass, its notes are about all attributes. -/
theorem notes_foldl (name : String) (allowed : List String) (attrs : List Attribute) :
    (attrs.foldl (Pass.step name allowed) .start).Notes name allowed attrs := by
  induction attrs using List.reverseRecOn with
  | nil => exact notes_start
  | append_singleton attrs attr ih =>
    rw [List.foldl_concat]
    exact ih.step attr

theorem check_valued_eq (name : String) (allowed : List String) (attrs : List Attribute) :
    (valued name allowed).check attrs =
      let named := attrs.filter (·.name == name)
      let bad := named.filter fun attr => !allowed.contains attr.value
      if named.isEmpty then .missing name else if bad.isEmpty then .satisfied else .invalid bad allowed := by
  obtain ⟨hpresent, hbad⟩ := notes_foldl name allowed attrs
  simp only [check, hpresent, hbad, Bool.not_not]

end Requirement

end TagLint

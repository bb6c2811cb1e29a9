import Mathlib.Data.List.Basic
import TagLint.Text.Split

/-!
# Split texts — the pieces of a text that is put together

Splitting a text and joining pieces are `List.splitOn` and `List.intercalate` (`splitAt_eq_splitOn`,
`joinWith_eq_intercalate`).  A text that is joined from pieces has these pieces, if no separator is in them
(`splitAt_joinWith`), and in the pieces of a text there is none (`not_mem_of_mem_splitAt`).
-/

namespace TagLint.Text

variable {sep c : Char} {cs : List Char}

/-! ## Splitting -/

theorem splitAt_eq_splitOn (sep : Char) (cs : List Char) : splitAt sep cs = cs.splitOn sep := by
  induction cs with
  | nil => rfl
  | cons c cs ih =>
    rw [List.splitOn_cons_eq_if_modifyHead, splitAt, ih]
    by_cases hc : c = sep
    · rw [if_pos hc, if_pos (beq_iff_eq.mpr hc)]
    · rw [if_neg hc, if_neg (mt beq_iff_eq.mp hc)]
      cases hs : cs.splitOn sep with
      | nil => exact absurd hs (List.splitOn_ne_nil sep cs)
      | cons piece pieces => rfl

/-- A character that does not separate belongs to the first piece. -/
theorem splitAt_cons_of_ne (h : c ≠ sep) (cs : List Char) :
    ∃ piece pieces, splitAt sep cs = piece :: pieces ∧ splitAt sep (c :: cs) = (c :: piece) :: pieces := by
  obtain ⟨piece, pieces, hpieces⟩ := List.exists_cons_of_ne_nil (splitAt_ne_nil sep cs)
  exact ⟨piece, pieces, hpieces, by rw [splitAt, if_neg h, hpieces]⟩

theorem splitAt_append_sep (as bs : List Char) : splitAt sep (as ++ sep :: bs) = splitAt sep as ++ splitAt sep bs := by
  simp only [splitAt_eq_splitOn]
  exact List.splitOn_append_cons_self as bs

theorem not_mem_of_mem_splitAt {piece : List Char} (hmem : piece ∈ splitAt sep cs) : sep ∉ piece := by
  induction cs generalizing piece with
  | nil =>
    obtain rfl : piece = [] := List.mem_singleton.mp hmem
    exact List.not_mem_nil
  | cons c cs ih =>
    by_cases hc : c = sep
    · rw [splitAt, if_pos hc] at hmem
      rcases List.mem_cons.mp hmem with rfl | hmem
      · exact List.not_mem_nil
      · exact ih hmem
    · obtain ⟨first, others, hcs, hcons⟩ := splitAt_cons_of_ne hc cs
      rw [hcons] at hmem
      rw [hcs] at ih
      rcases List.mem_cons.mp hmem with rfl | hmem
      · exact List.not_mem_cons_of_ne_of_not_mem (Ne.symm hc) (ih List.mem_cons_self)
      · exact ih (List.mem_cons_of_mem first hmem)

/-- A text without a piece between its separators consists of separators. -/
theorem filter_splitAt_eq_nil_iff : ((splitAt sep cs).filter fun p => !p.isEmpty) = [] ↔ ∀ c ∈ cs, c = sep := by
  induction cs with
  | nil => simp [splitAt]
  | cons c cs ih =>
    rw [List.forall_mem_cons, ← ih]
    by_cases hc : c = sep
    · rw [splitAt, if_pos hc]
      simp [hc]
    · obtain ⟨first, others, -, hcons⟩ := splitAt_cons_of_ne hc cs
      rw [hcons]
      simp [hc]

/-! ## Joining -/

theorem joinWith_eq_intercalate (sep : Char) (ps : List (List Char)) : joinWith sep ps = [sep].intercalate ps := by
  induction ps with
  | nil => rfl
  | cons p ps ih =>
    cases ps with
    | nil => exact List.intercalate_singleton.symm
    | cons q qs =>
      have hcons : joinWith sep (p :: q :: qs) = p ++ sep :: joinWith sep (q :: qs) := rfl
      rw [hcons, ih, List.intercalate_cons_cons, List.append_assoc, List.singleton_append]

theorem joinWith_append {ps qs : List (List Char)} (hp : ps ≠ []) (hq : qs ≠ []) :
    joinWith sep (ps ++ qs) = joinWith sep ps ++ sep :: joinWith sep qs := by
  simp only [joinWith_eq_intercalate]
  induction ps with
  | nil => exact absurd rfl hp
  | cons p ps ih =>
    by_cases h : ps = []
    · rw [h, List.singleton_append, List.intercalate_cons_of_ne_nil hq, List.intercalate_singleton, List.append_assoc,
        List.singleton_append]
    · rw [List.cons_append, List.intercalate_cons_of_ne_nil (List.append_ne_nil_of_right_ne_nil ps hq), ih h,
        List.intercalate_cons_of_ne_nil h, List.append_assoc _ _ (sep :: _)]

/-- Pieces without separators are found again in the text that is joined from them. -/
theorem splitAt_joinWith {ps : List (List Char)} (hne : ps ≠ []) (h : ∀ p ∈ ps, sep ∉ p) :
    splitAt sep (joinWith sep ps) = ps := by
  rw [splitAt_eq_splitOn, joinWith_eq_intercalate]
  exact List.splitOn_intercalate sep h hne

theorem splitAt_of_not_mem (h : sep ∉ cs) : splitAt sep cs = [cs] := by
  have hall : ∀ p ∈ [cs], sep ∉ p := fun p hp => List.mem_singleton.mp hp ▸ h
  exact splitAt_joinWith (List.cons_ne_nil cs []) hall

end TagLint.Text

import TagLint.Proofs.PathComponents

/-!
# The steps of a path, absolute or not

The steps of a path are its components besides the root and the leading `.`.

* `components_join_eq`: joining a relative path appends its steps.
* `map_components_above?_eq`: the directory above any path; a path that runs out of components is in the current
  directory.
-/

namespace TagLint

/-- A component other than the root and the leading `.`, which stand only at the start of a path. -/
def Component.isStep : Component → Bool
  | .root | .here => false
  | .up | .name _ => true

namespace Path

/-! ## Joined paths -/

theorem isStep_ofPiece (piece : List Char) : (Component.ofPiece piece).isStep := by
  unfold Component.ofPiece
  split <;> rfl

theorem filter_isStep_headComponents (p : Path) : p.headComponents.filter Component.isStep = [] := by
  rw [headComponents]
  split <;> rfl

/-- The pieces of a path are its steps. -/
theorem map_pieces (p : Path) : (pieces p.text.toList).map Component.ofPiece = p.components.filter Component.isStep := by
  have hall : ∀ k ∈ (pieces p.text.toList).map Component.ofPiece, k.isStep := fun k hk => by
    obtain ⟨piece, -, rfl⟩ := List.mem_map.mp hk
    exact isStep_ofPiece piece
  rw [components_eq, List.filter_append, filter_isStep_headComponents, List.nil_append, List.filter_eq_self.mpr hall]

theorem components_join_eq {p q : Path} (hp : p.text ≠ "") (hq : ¬ q.isAbsolute) :
    (p.join q).components = p.components ++ q.components.filter Component.isStep := by
  rw [components_join hp hq, map_pieces]

/-- What is seen from the empty path is itself. -/
theorem join_of_text_eq_empty {p : Path} (hp : p.text = "") (q : Path) : p.join q = q := by
  rw [join]
  split_ifs with h1 h2
  · rfl
  · rw [hp, String.empty_append]
  · exact absurd (.inl (by simp [hp])) h2

/-! ## Directories above -/

theorem components_here : here.components = [.here] := by decide

theorem same_here_iff {p : Path} : p.same here ↔ p.components = [.here] := by
  rw [same, components_here, beq_iff_eq]

/-- A path without components, the root and the current directory have nothing above them. -/
def isTop (ks : List Component) : Prop := ks = [] ∨ ks = [.root] ∨ ks = [.here]

instance (ks : List Component) : Decidable (isTop ks) := inferInstanceAs (Decidable (_ ∨ _))

/-- The directory above any path: what runs out of components is in the current directory. -/
theorem map_components_above?_eq (p : Path) :
    p.above?.map components =
      if isTop p.components then none
      else some (if p.components.dropLast = [] then [.here] else p.components.dropLast) := by
  have hparent := map_components_parent? p
  by_cases hnone : p.components = [] ∨ p.components = [.root]
  · rw [if_pos hnone, Option.map_eq_none_iff] at hparent
    have htop : isTop p.components := hnone.imp_right Or.inl
    rw [if_pos htop, above?, hparent]
    rfl
  · obtain ⟨hnil, hroot⟩ := not_or.mp hnone
    rw [if_neg hnone] at hparent
    obtain ⟨q, hq, hcomps⟩ := Option.map_eq_some_iff.mp hparent
    have hempty : q.text.isEmpty ↔ p.components.dropLast = [] := by
      rw [← hcomps, components_eq_nil_iff, String.isEmpty_iff]
    have habove : p.above? = if q.text.isEmpty then (if p.same here then none else some here) else some q := by
      rw [above?, hq]
    by_cases hdrop : p.components.dropLast = []
    · rw [if_pos (hempty.mpr hdrop)] at habove
      by_cases hhere : p.components = [.here]
      · have htop : isTop p.components := .inr (.inr hhere)
        rw [habove, if_pos (same_here_iff.mpr hhere), if_pos htop]
        rfl
      · rw [habove, if_neg (mt same_here_iff.mp hhere), if_neg (by simp [isTop, hnil, hroot, hhere]), if_pos hdrop,
          Option.map_some, components_here]
    · have hhere : p.components ≠ [.here] := fun h => hdrop (by rw [h]; rfl)
      rw [habove, if_neg (mt hempty.mp hdrop), if_neg (by simp [isTop, hnil, hroot, hhere]), if_neg hdrop,
        Option.map_some, hcomps]

end Path

end TagLint

import Mathlib.Data.List.Sort
import TagLint.SortedMap

/-!
# Look-ups in sorted maps

`get?_eq_some_iff` says what a look-up finds, `ext_get?` that the look-ups are the map, and one equation for every
operation says what it does to them.  All later facts about maps go through these.
-/

open Std

namespace TagLint.SortedMap

variable {κ α : Type} [Ord κ] [TransOrd κ] [LawfulEqOrd κ]

omit [LawfulEqOrd κ] in
theorem ne_of_compare_lt {a b : κ} (h : compare a b = .lt) : a ≠ b := by
  rintro rfl
  have : compare a a = .eq := ReflCmp.compare_self
  rw [this] at h
  cases h

omit [LawfulEqOrd κ] in
theorem nodup_entries (m : SortedMap κ α) : m.entries.Nodup :=
  m.ordered.imp fun hab heq => ne_of_compare_lt hab (congrArg Prod.fst heq)

theorem get?_eq_some_iff {m : SortedMap κ α} {k : κ} {v : α} : m.get? k = some v ↔ (k, v) ∈ m.entries := by
  obtain ⟨es, h⟩ := m
  show (es.find? fun e => compare k e.1 == .eq).map (·.2) = some v ↔ (k, v) ∈ es
  induction es with
  | nil => simp
  | cons e es ih =>
    obtain ⟨h1, h2⟩ := List.pairwise_cons.mp h
    by_cases hk : compare k e.1 = .eq
    · obtain rfl : k = e.1 := LawfulEqCmp.eq_of_compare hk
      have hnot : (e.1, v) ∉ es := fun hm => ne_of_compare_lt (h1 _ hm) rfl
      simp [hnot, Prod.ext_iff, eq_comm]
    · have hne : k ≠ e.1 := fun he => hk (he ▸ ReflCmp.compare_self)
      rw [List.find?_cons_of_neg (by simpa using hk), ih h2]
      simp [Prod.ext_iff, hne]

theorem get?_eq_none_iff {m : SortedMap κ α} {k : κ} : m.get? k = none ↔ ∀ e ∈ m.entries, e.1 ≠ k := by
  constructor
  · rintro h ⟨k', v⟩ he rfl
    rw [get?_eq_some_iff.mpr he] at h
    cases h
  · intro h
    cases hg : m.get? k with
    | none => rfl
    | some v => exact absurd rfl (h _ (get?_eq_some_iff.mp hg))

theorem mem_keys_iff {m : SortedMap κ α} {k : κ} : k ∈ m.keys ↔ m.contains k := by
  rw [keys, contains, Option.isSome_iff_exists, List.mem_map]
  constructor
  · rintro ⟨e, he, rfl⟩
    exact ⟨e.2, get?_eq_some_iff.mpr he⟩
  · rintro ⟨v, hv⟩
    exact ⟨(k, v), get?_eq_some_iff.mp hv, rfl⟩

/-- A map is what its look-ups are. -/
theorem ext_get? {a b : SortedMap κ α} (h : ∀ k, a.get? k = b.get? k) : a = b := by
  have hmem : ∀ e, e ∈ a.entries ↔ e ∈ b.entries := fun ⟨k, v⟩ => by
    rw [← get?_eq_some_iff, ← get?_eq_some_iff, h]
  have hperm := (List.perm_ext_iff_of_nodup a.nodup_entries b.nodup_entries).mpr hmem
  have hanti : ∀ x y : κ × α, compare x.1 y.1 = .lt → ¬ compare y.1 x.1 = .lt := fun _ _ hxy =>
    OrientedCmp.not_lt_of_lt hxy
  have heq := hperm.eq_of_pairwise (fun x y _ _ hxy hyx => absurd hyx (hanti x y hxy)) a.ordered b.ordered
  obtain ⟨as, ha⟩ := a
  obtain ⟨bs, hb⟩ := b
  subst heq
  rfl

omit [TransOrd κ] [LawfulEqOrd κ] in
theorem eq_empty_of_isEmpty {m : SortedMap κ α} (h : m.isEmpty) : m = empty := by
  obtain ⟨entries, ordered⟩ := m
  obtain rfl : entries = [] := List.isEmpty_iff.mp h
  rfl

/-! ## One equation for every operation -/

theorem get?_insert [DecidableEq κ] (m : SortedMap κ α) (k k' : κ) (v : α) :
    (m.insert k v).get? k' = if k' = k then some v else m.get? k' := by
  split_ifs with h
  · rw [h, get?_insert_self]
  · exact get?_insert_of_ne m v h

theorem get?_erase [DecidableEq κ] (m : SortedMap κ α) (k k' : κ) :
    (m.erase k).get? k' = if k' = k then none else m.get? k' := by
  split_ifs with h
  · subst h
    refine get?_eq_none_iff.mpr fun e he heq => ?_
    have hc := (List.mem_filter.mp he).2
    subst heq
    simp at hc
  · refine Option.ext fun v => ?_
    rw [get?_eq_some_iff, get?_eq_some_iff]
    show (k', v) ∈ m.entries.filter _ ↔ _
    have hne : compare k k' ≠ .eq := fun hc => h (LawfulEqCmp.eq_of_compare hc).symm
    simp [hne]

omit [LawfulEqOrd κ] in
theorem insertAll_append (m : SortedMap κ α) (as bs : List (κ × α)) :
    m.insertAll (as ++ bs) = (m.insertAll as).insertAll bs := List.foldl_append

omit [LawfulEqOrd κ] in
theorem insertAll_cons (m : SortedMap κ α) (e : κ × α) (es : List (κ × α)) :
    m.insertAll (e :: es) = (m.insert e.1 e.2).insertAll es := rfl

theorem get?_insertAll_of_not_mem {m : SortedMap κ α} {es : List (κ × α)} {k : κ} (h : ∀ e ∈ es, e.1 ≠ k) :
    (m.insertAll es).get? k = m.get? k := by
  induction es generalizing m with
  | nil => rfl
  | cons e es ih =>
    rw [insertAll_cons, ih fun e' he' => h e' (List.mem_cons_of_mem e he')]
    exact get?_insert_of_ne m e.2 (h e List.mem_cons_self).symm

/-- The last entry of a key counts. -/
theorem get?_insertAll_last (m : SortedMap κ α) (as : List (κ × α)) {bs : List (κ × α)} {k : κ} (v : α)
    (h : ∀ e ∈ bs, e.1 ≠ k) : (m.insertAll (as ++ (k, v) :: bs)).get? k = some v := by
  rw [insertAll_append, insertAll_cons, get?_insertAll_of_not_mem h, get?_insert_self]

/-- What a look-up finds was put in, or was there. -/
theorem mem_or_of_get?_insertAll [DecidableEq κ] {m : SortedMap κ α} {es : List (κ × α)} {k : κ} {v : α}
    (h : (m.insertAll es).get? k = some v) : (k, v) ∈ es ∨ m.get? k = some v := by
  induction es generalizing m with
  | nil => exact .inr h
  | cons e es ih =>
    rw [insertAll_cons] at h
    rcases ih h with hmem | hget
    · exact .inl (List.mem_cons_of_mem e hmem)
    · rw [get?_insert] at hget
      split_ifs at hget with hk
      · obtain rfl := Option.some.inj hget
        exact .inl (hk ▸ List.mem_cons_self)
      · exact .inr hget

/-- An entry of the upper map hides the entry below it. -/
theorem get?_override (a b : SortedMap κ α) (k : κ) : (override a b).get? k = (b.get? k).or (a.get? k) := by
  cases hb : b.get? k with
  | none => exact get?_insertAll_of_not_mem (get?_eq_none_iff.mp hb)
  | some v =>
    obtain ⟨as, bs, hes⟩ := List.append_of_mem (get?_eq_some_iff.mp hb)
    have hafter : ∀ e ∈ bs, e.1 ≠ k := fun e he heq => by
      have h := b.ordered
      rw [hes] at h
      exact ne_of_compare_lt ((List.pairwise_cons.mp (List.pairwise_append.mp h).2.1).1 e he) heq.symm
    rw [override, hes, get?_insertAll_last a as v hafter]
    rfl

end TagLint.SortedMap

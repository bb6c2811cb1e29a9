import TagLint.Json.Value
import TagLint.Proofs.OverlayLaws

/-!
# Value paths — what a JSON value holds at each place

* `get?_insertAll`: of entries put into a map one after the other, the last one of a key counts (`lastOf?`).
* `Json.at?`: the part of a value at a path of keys and places; of equal keys the last one counts.
* **`at?_canonical`**: the canonical form of a value holds at every path what the value holds there.
* `canonical_canonical`: a canonical form has no key twice, at no depth, so it is its own canonical form.
-/

open Std

namespace TagLint

/-! ## The last entry of a key -/

section LastEntry

variable {κ α β : Type} [DecidableEq κ]

/-- The value of the last entry with a key. -/
def lastOf? (es : List (κ × α)) (k : κ) : Option α := (es.reverse.find? fun e => e.1 = k).map (·.2)

theorem lastOf?_concat (es : List (κ × α)) (e : κ × α) (k : κ) :
    lastOf? (es ++ [e]) k = if e.1 = k then some e.2 else lastOf? es k := by
  rw [lastOf?, List.reverse_concat, List.find?_cons]
  by_cases hk : e.1 = k
  · rw [if_pos hk, decide_eq_true hk]
    rfl
  · rw [if_neg hk, decide_eq_false hk]
    rfl

theorem lastOf?_map (f : α → β) (es : List (κ × α)) (k : κ) :
    lastOf? (es.map fun e => (e.1, f e.2)) k = (lastOf? es k).map f := by
  induction es using List.reverseRecOn with
  | nil => rfl
  | append_singleton es e ih =>
    rw [List.map_append, List.map_singleton, lastOf?_concat, lastOf?_concat, ih]
    by_cases hk : e.1 = k
    · rw [if_pos hk, if_pos hk]
      rfl
    · rw [if_neg hk, if_neg hk]

namespace SortedMap

variable [Ord κ] [TransOrd κ] [LawfulEqOrd κ]

theorem get?_insertAll (m : SortedMap κ α) (es : List (κ × α)) (k : κ) :
    (m.insertAll es).get? k = (lastOf? es k).or (m.get? k) := by
  induction es using List.reverseRecOn with
  | nil => rfl
  | append_singleton es e ih =>
    rw [insertAll_append, lastOf?_concat]
    show ((m.insertAll es).insert e.1 e.2).get? k = _
    rw [get?_insert, ih]
    by_cases hk : k = e.1
    · rw [if_pos hk, if_pos hk.symm, Option.some_or]
    · rw [if_neg hk, if_neg (Ne.symm hk)]

theorem get?_ofList (es : List (κ × α)) (k : κ) : (ofList es).get? k = lastOf? es k := by
  rw [ofList, get?_insertAll, get?_empty, Option.or_none]

omit [DecidableEq κ] in
theorem ofList_entries (m : SortedMap κ α) : ofList m.entries = m := empty_override m

theorem lastOf?_entries (m : SortedMap κ α) (k : κ) : lastOf? m.entries k = m.get? k := by
  rw [← get?_ofList, ofList_entries]

end SortedMap

end LastEntry

/-! ## Paths into a value -/

namespace Json

/-- A turn on the way into a value: to the value of a key, or to the item at a place. -/
inductive Turn
  | key (k : String)
  | item (i : Nat)
  deriving DecidableEq, Repr

/-- The part of a value behind a turn. -/
def part? : Json → Turn → Option Json
  | .object members, .key k => lastOf? members k
  | .array items, .item i => items[i]?
  | _, _ => none

/-- The part of a value at a path. -/
def at? (j : Json) : List Turn → Option Json
  | [] => some j
  | turn :: path => (j.part? turn).bind fun part => part.at? path

theorem part?_canonical (j : Json) (turn : Turn) : j.canonical.part? turn = (j.part? turn).map canonical := by
  cases j with
  | object members =>
    cases turn with
    | key k =>
      show lastOf? (canonicalObject members) k = (lastOf? members k).map canonical
      rw [canonicalObject, SortedMap.lastOf?_entries, SortedMap.get?_ofList, canonicalMembers_eq_map, lastOf?_map]
    | item i => rfl
  | array items =>
    cases turn with
    | key k => rfl
    | item i =>
      show (canonicalItems items)[i]? = items[i]?.map canonical
      rw [canonicalItems_eq_map, List.getElem?_map]
  | null | bool | number | string => cases turn <;> rfl

theorem at?_canonical (j : Json) (path : List Turn) : j.canonical.at? path = (j.at? path).map canonical := by
  induction path generalizing j with
  | nil => rfl
  | cons turn path ih =>
    rw [at?, at?, part?_canonical]
    rcases j.part? turn with _ | part
    · rfl
    · exact ih part

/-! ## Canonical forms are canonical -/

mutual

theorem canonical_canonical : (j : Json) → j.canonical.canonical = j.canonical
  | .null | .bool _ | .number _ | .string _ => rfl
  | .array items => by
    have hitems : (canonicalItems items).map canonical = canonicalItems items :=
      (List.map_congr_left (canonical_of_mem_items items)).trans (List.map_id _)
    rw [canonical, canonical, canonicalItems_eq_map (canonicalItems items), hitems]
  | .object members => by
    -- the entries of a map are those put in, so each value in it is canonical
    have hvalues : ∀ m ∈ canonicalObject members, (m.1, m.2.canonical) = id m := by
      intro m hm
      have hget := SortedMap.get?_eq_some_iff.mpr hm
      rcases SortedMap.mem_or_of_get?_insertAll hget with hmem | hempty
      · rw [canonical_of_mem_members members m hmem]
        rfl
      · cases hempty
    have hmembers : canonicalMembers (canonicalObject members) = canonicalObject members := by
      rw [canonicalMembers_eq_map, List.map_congr_left hvalues, List.map_id]
    rw [canonical_object, canonical_object, canonicalObject, hmembers]
    show Json.object (SortedMap.ofList (SortedMap.ofList (canonicalMembers members)).entries).entries = _
    rw [SortedMap.ofList_entries]
    rfl

theorem canonical_of_mem_items : (items : List Json) → ∀ j ∈ canonicalItems items, j.canonical = id j
  | [], _, hj => by cases hj
  | item :: items, j, hj => by
    rw [canonicalItems] at hj
    rcases List.mem_cons.mp hj with rfl | hj
    · exact canonical_canonical item
    · exact canonical_of_mem_items items j hj

theorem canonical_of_mem_members : (members : List (String × Json)) → ∀ m ∈ canonicalMembers members,
    m.2.canonical = m.2
  | [], _, hm => by cases hm
  | (k, j) :: members, m, hm => by
    rw [canonicalMembers] at hm
    rcases List.mem_cons.mp hm with rfl | hm
    · exact canonical_canonical j
    · exact canonical_of_mem_members members m hm

end

end Json

end TagLint

import TagLint.Binary64
import TagLint.SortedMap

/-!
# JSON values — as written, and in canonical form

`Json` keeps the members of an object in the order in which they are written, repeated keys included.
`Json.canonical` sorts the members of every object by key and keeps the last of equal keys.
-/

namespace TagLint

namespace Json

/-- A JSON number: an integer of 64 bits, or a double. -/
inductive Number
  /-- From `0` to `2 ^ 64 - 1`. -/
  | natural (n : Nat)
  /-- The integer `-n`, down to `-2 ^ 63`. -/
  | negative (n : Nat)
  /-- Written with a point or an exponent, too large for an integer, or `-0`. -/
  | double (x : Binary64)
  deriving DecidableEq, Repr

/-- Greater than zero. -/
def Number.isPositive : Number → Bool
  | .natural n => 0 < n
  | .negative _ => false
  | .double x => x.isPositive

end Json

/-- A JSON value. -/
inductive Json
  | null
  | bool (b : Bool)
  | number (n : Json.Number)
  | string (s : String)
  | array (items : List Json)
  | object (members : List (String × Json))
  deriving Repr, Inhabited

namespace Json

mutual

/-- Every object with its members in key order, the last one of equal keys. -/
def canonical : Json → Json
  | .array items => .array (canonicalItems items)
  | .object members => .object (SortedMap.ofList (canonicalMembers members)).entries
  | .null => .null
  | .bool b => .bool b
  | .number n => .number n
  | .string s => .string s

def canonicalItems : List Json → List Json
  | [] => []
  | j :: js => j.canonical :: canonicalItems js

def canonicalMembers : List (String × Json) → List (String × Json)
  | [] => []
  | (k, j) :: ms => (k, j.canonical) :: canonicalMembers ms

end

/-- The members of an object in canonical form. -/
def canonicalObject (members : List (String × Json)) : List (String × Json) :=
  (SortedMap.ofList (canonicalMembers members)).entries

@[simp] theorem canonical_object (members : List (String × Json)) :
    canonical (.object members) = .object (canonicalObject members) := by
  simp [canonical, canonicalObject]

theorem canonicalItems_eq_map (js : List Json) : canonicalItems js = js.map canonical := by
  induction js with
  | nil => rfl
  | cons j js ih => simp [canonicalItems, ih]

theorem canonicalMembers_eq_map (ms : List (String × Json)) :
    canonicalMembers ms = ms.map fun m => (m.1, m.2.canonical) := by
  induction ms with
  | nil => rfl
  | cons m ms ih => obtain ⟨k, j⟩ := m; simp [canonicalMembers, ih]

end Json

end TagLint

import TagLint.Proofs.NumberRange
import TagLint.Proofs.ValuePaths
import TagLint.Rule.Option

/-!
# Option readings — an option in a text, read in two ways

A rule file is read option by option: each value is tried as a truth value, a number, an object and any other value, in
this order, and what is inside of it is built anew (`RuleOption.forms`).  Elsewhere a text is read as a value first, and
the option is what the finished value stands for (`RuleOption.ofValue`).

* `rebuilt_eq_canonical`: building a value anew gives its canonical form, since all its numbers can be taken over.
* `findSome?_forms`, `ofValue_canonical`: either way gives the same option.

**`readings_agree`** states this for texts, with what the option holds at every path.
-/

namespace TagLint

namespace Json

/-! ## Building a value anew -/

/-- The number that is taken over from another value: an integer by its sign, a double when it is finite. -/
def Number.taken? : Number → Option Number
  | .natural n => some (.natural n)
  | .negative n => if 0 < n then some (.negative n) else some (.natural 0)
  | .double x => if x.magnitude < Binary64.infinity then some (.double x) else none

theorem taken?_of_inRange {n : Number} (h : n.InRange) : n.taken? = some n := by
  cases n with
  | natural n => rfl
  | negative n => exact if_pos h.1
  | double x => exact if_pos h

mutual

/-- The value that is built when another one is read: a number that cannot be taken over becomes `null`, and of equal
keys the last one counts. -/
def rebuilt : Json → Json
  | .number n => match n.taken? with
    | some taken => .number taken
    | none => .null
  | .array items => .array (rebuiltItems items)
  | .object members => .object (SortedMap.ofList (rebuiltMembers members)).entries
  | .null => .null
  | .bool b => .bool b
  | .string s => .string s

def rebuiltItems : List Json → List Json
  | [] => []
  | item :: items => item.rebuilt :: rebuiltItems items

def rebuiltMembers : List (String × Json) → List (String × Json)
  | [] => []
  | (k, j) :: members => (k, j.rebuilt) :: rebuiltMembers members

end

theorem rebuiltItems_eq {items : List Json} (h : ∀ j ∈ items, j.rebuilt = j.canonical) :
    rebuiltItems items = canonicalItems items := by
  induction items with
  | nil => rfl
  | cons item items ih =>
    obtain ⟨hitem, hitems⟩ := List.forall_mem_cons.mp h
    rw [rebuiltItems, canonicalItems, hitem, ih hitems]

theorem rebuiltMembers_eq {members : List (String × Json)} (h : ∀ m ∈ members, m.2.rebuilt = m.2.canonical) :
    rebuiltMembers members = canonicalMembers members := by
  induction members with
  | nil => rfl
  | cons m members ih =>
    obtain ⟨hm, hmembers⟩ := List.forall_mem_cons.mp h
    obtain ⟨k, j⟩ := m
    rw [rebuiltMembers, canonicalMembers, hm, ih hmembers]

theorem rebuilt_eq_canonical {j : Json} (h : j.InRange) : j.rebuilt = j.canonical := by
  induction h with
  | null | bool | string => rfl
  | number hn => rw [rebuilt, taken?_of_inRange hn, canonical]
  | array _ ih => rw [rebuilt, canonical, rebuiltItems_eq ih]
  | object _ ih => rw [rebuilt, canonical, rebuiltMembers_eq ih]

end Json

namespace RuleOption

open Json (Number)

/-! ## The forms of an option -/

def asBool : Json → Option RuleOption
  | .bool b => some (.bool b)
  | _ => none

def asNumber : Json → Option RuleOption
  | .number n => n.taken?.map .number
  | _ => none

def asObject : Json → Option RuleOption
  | .object members => some (.object (SortedMap.ofList (Json.rebuiltMembers members)).entries)
  | _ => none

def asOther (j : Json) : Option RuleOption := some (.other j.rebuilt)

/-- What an option is tried as, one after the other. -/
def forms : List (Json → Option RuleOption) := [asBool, asNumber, asObject, asOther]

/-- The first form that fits is the option as written. -/
theorem findSome?_forms {j : Json} (h : j.InRange) : forms.findSome? (· j) = some (ofWritten j) := by
  have hsame := Json.rebuilt_eq_canonical h
  rw [forms, List.findSome?_cons, List.findSome?_cons, List.findSome?_cons, List.findSome?_cons]
  cases h with
  | null | bool | string => rfl
  | number hn =>
    rw [asNumber, Json.taken?_of_inRange hn]
    rfl
  | array =>
    rw [asOther, hsame]
    rfl
  | object =>
    rw [Json.rebuilt, Json.canonical_object] at hsame
    rw [asObject, Json.object.inj hsame]
    rfl

/-- A finished value stands for the option that is written. -/
theorem ofValue_canonical (j : Json) : ofValue j.canonical = ofWritten j := by
  cases j with
  | object members =>
    rw [Json.canonical_object]
    rfl
  | _ => rfl

/-- An option keeps the whole value. -/
theorem toValue_ofWritten (j : Json) : (ofWritten j).toValue = j.canonical := by
  cases j with
  | object members =>
    rw [Json.canonical_object]
    rfl
  | _ => rfl

/-! ## Both readings -/

/-- **The two readings of an option agree.**  A text is read as an option when it is read as a value, and the finished
value stands for the same option, so the two have one answer to every question.  The option is the first form that
fits, all numbers being ones that can be taken over; it is also what the value built anew stands for.  Its value is
canonical, and at every path it holds what the text holds there, the last one of equal keys. -/
theorem readings_agree (text : String) :
    let written := parse text
    let converted := (Json.parse text).map fun j => ofValue j.canonical
    written = converted ∧
    (written.map isEnabled = converted.map isEnabled ∧ written.map positiveInt? = converted.map positiveInt? ∧
      written.map object? = converted.map object?) ∧
    ∀ j, Json.parse text = .ok j → ∃ option, written = .ok option ∧
      forms.findSome? (· j) = some option ∧ ofValue j.rebuilt = option ∧ option.toValue.canonical = option.toValue ∧
      ∀ path, option.toValue.at? path = (j.at? path).map Json.canonical := by
  intro written converted
  have hsame : written = converted := by
    show (Json.parse text).map ofWritten = (Json.parse text).map fun j => ofValue j.canonical
    rw [funext ofValue_canonical]
  refine ⟨hsame, ⟨by rw [hsame], by rw [hsame], by rw [hsame]⟩, ?_⟩
  intro j hparse
  have hrange : j.InRange := Json.inRange_of_parse hparse
  refine ⟨ofWritten j, ?_, findSome?_forms hrange, ?_, ?_, ?_⟩
  · show (Json.parse text).map ofWritten = .ok (ofWritten j)
    rw [hparse]
    rfl
  · rw [Json.rebuilt_eq_canonical hrange, ofValue_canonical]
  · rw [toValue_ofWritten, Json.canonical_canonical]
  · intro path
    rw [toValue_ofWritten, Json.at?_canonical]

/-- The number that an option holds at a path. -/
def numberAt? (option : RuleOption) (path : List Json.Turn) : Option Number :=
  match option.toValue.at? path with
  | some (.number n) => some n
  | _ => none

/-- Keys are repeated on two levels, with numbers of every kind. -/
def repeatingText : String :=
  "\x7b\"max\": 1, \"limits\": [\x7b\"top\": -0, \"top\": 18446744073709551616\x7d, -0, -7, 1e2], \"max\": 80\x7d"

theorem readings_agree_repeatingText :
    let at? path := (parse repeatingText).toOption.bind (·.numberAt? path)
    at? [.key "max"] = some (.natural 80) ∧
    at? [.key "limits", .item 0, .key "top"] = some (.double ⟨false, 4895412794951729152⟩) ∧
    at? [.key "limits", .item 1] = some (.double ⟨true, 0⟩) ∧ at? [.key "limits", .item 2] = some (.negative 7) ∧
    at? [.key "limits", .item 3] = some (.double ⟨false, 4636737291354636288⟩) := by
  rw [(readings_agree repeatingText).1]
  decide +kernel

end RuleOption

end TagLint

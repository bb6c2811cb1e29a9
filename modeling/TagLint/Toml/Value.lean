import TagLint.Binary64

/-!
# TOML values
-/

namespace TagLint

/-- A TOML value.  Dates and times are kept as their texts. -/
inductive Toml
  | bool (b : Bool)
  | integer (n : Int)
  | float (x : Binary64)
  | infinite (negative : Bool)
  | notANumber
  | text (s : String)
  | array (items : List Toml)
  | table (entries : List (String × Toml))
  /-- Stands for the items of a list before the first one that is set. -/
  | missing
  deriving Repr, Inhabited

namespace Toml

variable {α : Type}

/-- The value of a key in a list of entries. -/
def lookup? (entries : List (String × α)) (k : String) : Option α :=
  (entries.find? fun e => e.1 == k).map (·.2)

/-- The entries with `v` at key `k`: in the place of the old value, or at the end. -/
def put (k : String) (v : α) : List (String × α) → List (String × α)
  | [] => [(k, v)]
  | e :: es => if e.1 = k then (k, v) :: es else e :: put k v es

theorem lookup?_put_self (k : String) (v : α) (es : List (String × α)) : lookup? (put k v es) k = some v := by
  induction es with
  | nil => simp [put, lookup?]
  | cons e es ih =>
    rw [put]
    split
    · simp [lookup?]
    · simp_all [lookup?]

theorem lookup?_put_of_ne {k k' : String} (v : α) (es : List (String × α)) (h : k' ≠ k) :
    lookup? (put k v es) k' = lookup? es k' := by
  induction es with
  | nil => simp [put, lookup?, Ne.symm h]
  | cons e es ih =>
    rw [put]
    split
    · rename_i he
      simp [lookup?, he, Ne.symm h]
    · by_cases hc : e.1 = k' <;> simp_all [lookup?]

end Toml

end TagLint

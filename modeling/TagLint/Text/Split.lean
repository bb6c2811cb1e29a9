/-!
# Splitting — the pieces of a text between separators
-/

namespace TagLint.Text

/-- The pieces between separators, empty ones included: one more than there are separators. -/
def splitAt (sep : Char) : List Char → List (List Char)
  | [] => [[]]
  | c :: cs =>
    if c = sep then [] :: splitAt sep cs
    else
      match splitAt sep cs with
      | [] => [[c]]
      | p :: ps => (c :: p) :: ps

/-- The pieces with separators between them. -/
def joinWith (sep : Char) : List (List Char) → List Char
  | [] => []
  | [p] => p
  | p :: ps => p ++ sep :: joinWith sep ps

theorem splitAt_ne_nil (sep : Char) (cs : List Char) : splitAt sep cs ≠ [] := by
  cases cs with
  | nil => simp [splitAt]
  | cons c cs =>
    rw [splitAt]
    split
    · simp
    · split <;> simp

/-- Putting the pieces together again gives the text. -/
theorem joinWith_splitAt (sep : Char) (cs : List Char) : joinWith sep (splitAt sep cs) = cs := by
  induction cs with
  | nil => rfl
  | cons c cs ih =>
    rw [splitAt]
    have hne := splitAt_ne_nil sep cs
    split
    case isTrue h =>
      cases hs : splitAt sep cs with
      | nil => exact absurd hs hne
      | cons p ps => simp [joinWith, ← hs, ih, h]
    case isFalse h =>
      split
      · rename_i hs; exact absurd hs hne
      · rename_i p ps hs
        rw [hs] at ih
        cases ps with
        | nil => simpa [joinWith] using ih
        | cons q qs => simpa [joinWith] using ih

end TagLint.Text

/-!
# Case folding — comparing names up to the case of ASCII letters
-/

namespace TagLint.Text

/-- The text with its ASCII capital letters made small. -/
def fold (s : String) : String := String.ofList (s.toList.map Char.toLower)

@[simp] theorem toList_fold (s : String) : (fold s).toList = s.toList.map Char.toLower := by
  simp [fold]

/-- Equal up to the case of ASCII letters. -/
def sameFolded (a b : String) : Bool := fold a == fold b

end TagLint.Text

/-!
# Units — the length of a text in bytes and in UTF-16 units
-/

namespace TagLint.Text

/-- The sizes of all characters of a text together. -/
def total (size : Char → Nat) : List Char → Nat
  | [] => 0
  | c :: cs => size c + total size cs

theorem total_append (size : Char → Nat) (as bs : List Char) :
    total size (as ++ bs) = total size as + total size bs := by
  induction as with
  | nil => simp [total]
  | cons c cs ih => simp only [List.cons_append, total, ih]; omega

/-- Bytes of a text in UTF-8. -/
def byteLength (cs : List Char) : Nat := total Char.utf8Size cs

@[simp] theorem byteLength_nil : byteLength [] = 0 := rfl

@[simp] theorem byteLength_cons (c : Char) (cs : List Char) :
    byteLength (c :: cs) = c.utf8Size + byteLength cs := rfl

@[simp] theorem byteLength_append (as bs : List Char) :
    byteLength (as ++ bs) = byteLength as + byteLength bs := total_append ..

/-- UTF-16 units of a character: two above the basic plane. -/
def unitSize (c : Char) : Nat := if c.toNat < 0x10000 then 1 else 2

/-- UTF-16 units of a text. -/
def units16 (cs : List Char) : Nat := total unitSize cs

@[simp] theorem units16_nil : units16 [] = 0 := rfl

@[simp] theorem units16_cons (c : Char) (cs : List Char) :
    units16 (c :: cs) = unitSize c + units16 cs := rfl

@[simp] theorem units16_append (as bs : List Char) :
    units16 (as ++ bs) = units16 as + units16 bs := total_append ..

/-- A character takes at least one unit. -/
theorem length_le_units16 (cs : List Char) : cs.length ≤ units16 cs := by
  induction cs with
  | nil => simp
  | cons c cs ih =>
    have : 1 ≤ unitSize c := by unfold unitSize; split <;> omega
    simp only [List.length_cons, units16_cons]
    omega

end TagLint.Text

/-!
# Bytes — text from bytes that need not be one

Where bytes cannot begin a character, or stop before it is complete, the replacement character stands for them.
-/

namespace TagLint.Text

/-- A character some bytes of which have been read: what they come to, how many are missing, and the bounds of the
next one. -/
structure Pending where
  value : Nat
  missing : Nat
  least : Nat
  most : Nat

/-- The character that stands for bytes that are none. -/
def replacement : Char := '\uFFFD'

/-- The character of several bytes that a byte begins.  The bounds of the second byte leave out what has a shorter form,
the surrogates, and what lies beyond the last character. -/
def lead? (b : Nat) : Option Pending :=
  if 0xC2 ≤ b ∧ b ≤ 0xDF then some ⟨b - 0xC0, 1, 0x80, 0xBF⟩
  else if b = 0xE0 then some ⟨0, 2, 0xA0, 0xBF⟩
  else if b = 0xED then some ⟨0xD, 2, 0x80, 0x9F⟩
  else if 0xE1 ≤ b ∧ b ≤ 0xEF then some ⟨b - 0xE0, 2, 0x80, 0xBF⟩
  else if b = 0xF0 then some ⟨0, 3, 0x90, 0xBF⟩
  else if 0xF1 ≤ b ∧ b ≤ 0xF3 then some ⟨b - 0xF0, 3, 0x80, 0xBF⟩
  else if b = 0xF4 then some ⟨4, 3, 0x80, 0x8F⟩
  else none

/-- What a byte comes to where a character may begin. -/
def first (b : Nat) : List Char × Option Pending :=
  if b < 0x80 then ([Char.ofNat b], none)
  else
    match lead? b with
    | some p => ([], some p)
    | none => ([replacement], none)

/-- What a byte comes to.  One that does not go on with a character that is pending may begin another. -/
def next (b : Nat) : Option Pending → List Char × Option Pending
  | none => first b
  | some p =>
    let value := 64 * p.value + (b - 0x80)
    if p.least ≤ b ∧ b ≤ p.most then
      if p.missing = 1 then ([Char.ofNat value], none) else ([], some ⟨value, p.missing - 1, 0x80, 0xBF⟩)
    else (replacement :: (first b).1, (first b).2)

/-- The characters of some bytes, after a character that may be pending. -/
def repairAfter (pending : Option Pending) : List UInt8 → List Char
  | [] => if pending.isSome then [replacement] else []
  | b :: bs => (next b.toNat pending).1 ++ repairAfter (next b.toNat pending).2 bs

/-- The characters of some bytes. -/
def repair (bytes : List UInt8) : List Char := repairAfter none bytes

/-- A form that is too long, a character that is cut off, and a byte that begins none. -/
example : repair [0x41, 0xE0, 0x80, 0xE2, 0x82, 0xAC, 0xF0, 0x9F, 0x98, 0x42, 0xFF] =
    ['A', replacement, replacement, '€', replacement, 'B', replacement] := by decide

end TagLint.Text

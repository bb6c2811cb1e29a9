import TagLint.Json.Fault

/-!
# Numbers — reading a JSON number

An integer that fits 64 bits stays one.  Every other number is a double: its leading digits, as many as fit 64
bits, are rounded to a double, which is then multiplied or divided by a power of ten, rounded again.
-/

namespace TagLint.Json

def isDigit (c : Char) : Bool := '0' ≤ c && c ≤ '9'

def digitValue (c : Char) : Nat := c.toNat - '0'.toNat

def wordSize : Nat := 18446744073709551616

/-- Append digits to a significand as long as it fits 64 bits; also the number of digits left over. -/
def appendDigits (n : Nat) : List Char → Nat × Nat
  | [] => (n, 0)
  | c :: cs =>
    let m := 10 * n + digitValue c
    if m < wordSize then appendDigits m cs else (n, (c :: cs).length)

/-- Powers of ten up to this one are applied in one step. -/
def largestPower : Nat := 308

def powerOfTen (n : Nat) : Nat := Binary64.ofRatio (Nat.pow 10 n) 1

/-- Divide by a power of ten, the largest one first as often as needed. -/
def divideByTens (f n : Nat) : Nat :=
  if f = 0 then 0
  else if n ≤ largestPower then Binary64.div f (powerOfTen n)
  else divideByTens (Binary64.div f (powerOfTen largestPower)) (n - largestPower)
termination_by n
decreasing_by simp_all [largestPower]; omega

/-- The magnitude of `n · 10 ^ e`, or nothing when it is too large. -/
def scale (n : Nat) (e : Int) : Option Nat :=
  let f := Binary64.ofRatio n 1
  if e < 0 then some (divideByTens f (-e).toNat)
  else if e ≤ largestPower then
    let g := Binary64.mul f (powerOfTen e.toNat)
    if g = Binary64.infinity then none else some g
  else if f = 0 then some 0
  else none

/-- The bounds of a decimal exponent. -/
def largestExponent : Nat := 2147483647

def clampExponent (e : Int) : Int := max (min e largestExponent) (-largestExponent - 1)

/-- What is left after the digit that makes the exponent too large. -/
def overflowAt (e : Nat) : List Char → Option (List Char)
  | [] => none
  | c :: cs =>
    if isDigit c then
      let e' := 10 * e + digitValue c
      if largestExponent < e' then some cs else overflowAt e' cs
    else none

def double (negative : Bool) (n : Nat) (e : Int) (rest : List Char) : Except Fault (Number × List Char) :=
  match scale n e with
  | some w => .ok (.double ⟨negative, w⟩, rest)
  | none => .error (.before .numberOutOfRange rest)

/-- After the letter of an exponent: `start` is the exponent so far. -/
def readExponent (negative : Bool) (n : Nat) (start : Int) (cs : List Char) :
    Except Fault (Number × List Char) :=
  let (down, cs) := match cs with
    | '+' :: r => (false, r)
    | '-' :: r => (true, r)
    | r => (false, r)
  match cs with
  | [] => .error (.before .endInValue [])
  | c :: _ =>
    if isDigit c then
      let rest := cs.dropWhile isDigit
      match overflowAt 0 cs with
      | some r =>
        if n ≠ 0 ∧ !down then .error (.before .numberOutOfRange r) else .ok (.double ⟨negative, 0⟩, rest)
      | none =>
        let e : Int := (appendDigits 0 (cs.takeWhile isDigit)).1
        double negative n (clampExponent (if down then start - e else start + e)) rest
    else .error (.atByte .invalidNumber cs)

/-- An exponent, if there is one. -/
def readScaled (negative : Bool) (n : Nat) (e : Int) : List Char → Except Fault (Number × List Char)
  | 'e' :: r => readExponent negative n e r
  | 'E' :: r => readExponent negative n e r
  | r => double negative n e r

/-- After the point of a fraction: `left` digits before the point did not fit. -/
def readFraction (negative : Bool) (n left : Nat) (cs : List Char) : Except Fault (Number × List Char) :=
  let digits := cs.takeWhile isDigit
  let rest := cs.dropWhile isDigit
  match digits, rest with
  | [], [] => .error (.atByte .endInValue [])
  | [], r => .error (.atByte .invalidNumber r)
  | _, _ =>
    let (m, unread) := appendDigits n digits
    readScaled negative m ((left : Int) - (digits.length - unread : Nat)) rest

/-- The integer `n`, or a double when it does not fit or is `-0`. -/
def integer (negative : Bool) (n : Nat) : Number :=
  if !negative then .natural n
  else if 0 < n ∧ n ≤ wordSize / 2 then .negative n
  else .double ⟨true, Binary64.ofRatio n 1⟩

/-- After the sign of a number. -/
def readUnsigned (negative : Bool) (cs : List Char) : Except Fault (Number × List Char) :=
  match cs with
  | [] => .error (.before .endInValue [])
  | '0' :: r =>
    match r with
    | '.' :: r => readFraction negative 0 0 r
    | 'e' :: r => readExponent negative 0 0 r
    | 'E' :: r => readExponent negative 0 0 r
    | c :: _ => if isDigit c then .error (.atByte .invalidNumber r) else .ok (integer negative 0, r)
    | [] => .ok (integer negative 0, r)
  | c :: _ =>
    if isDigit c then
      let (n, left) := appendDigits 0 (cs.takeWhile isDigit)
      let rest := cs.dropWhile isDigit
      match rest with
      | '.' :: r => readFraction negative n left r
      | 'e' :: r => readExponent negative n left r
      | 'E' :: r => readExponent negative n left r
      | r => if left = 0 then .ok (integer negative n, r) else double negative n left r
    else .error (.atByte .invalidNumber cs)

/-- The number at the start of the text. -/
def readNumber (cs : List Char) : Except Fault (Number × List Char) :=
  match cs with
  | '-' :: r => readUnsigned true r
  | r => readUnsigned false r

end TagLint.Json

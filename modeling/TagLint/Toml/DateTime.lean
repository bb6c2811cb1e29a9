import TagLint.Toml.Digit

/-!
# Dates and times in TOML

A value is a date, a time of day, or both, the latter perhaps with an offset.  `DateTime.canonical?` gives its one
spelling: a capital `T` between date and time, seconds when they are given, and after the point one to nine digits
without needless zeros at their end.
-/

namespace TagLint.Toml

/-- A number of exactly `count` digits. -/
def readFixed (count : Nat) (cs : List Char) : Option (Nat × List Char) := do
  let ds ← (cs.take count).mapM (digitIn? 10)
  if ds.length = count then some (valueIn 10 ds, cs.drop count) else none

/-- The digits of a number, at least `count` of them. -/
def printFixed (count n : Nat) : List Char :=
  let ds := Nat.toDigits 10 n
  List.replicate (count - ds.length) '0' ++ ds

structure Date where
  year : Nat
  month : Nat
  day : Nat
  deriving DecidableEq, Repr

/-- Seconds, perhaps with the digits after a point. -/
structure Seconds where
  whole : Nat
  fraction? : Option (List Char)
  deriving DecidableEq, Repr

structure Time where
  hour : Nat
  minute : Nat
  seconds? : Option Seconds
  deriving DecidableEq, Repr

/-- How a time is related to universal time. -/
inductive Offset
  | utc
  /-- Ahead of it by some minutes. -/
  | ahead (minutes : Int)
  deriving DecidableEq, Repr

namespace Date

def isLeap (year : Nat) : Bool := year % 4 = 0 && (year % 100 ≠ 0 || year % 400 = 0)

def daysIn (year month : Nat) : Nat :=
  if month = 2 then (if isLeap year then 29 else 28)
  else if month = 4 ∨ month = 6 ∨ month = 9 ∨ month = 11 then 30
  else 31

def isValid (d : Date) : Bool := 1 ≤ d.month && d.month ≤ 12 && 1 ≤ d.day && d.day ≤ daysIn d.year d.month

def read (cs : List Char) : Option (Date × List Char) := do
  let (year, cs) ← readFixed 4 cs
  let '-' :: cs := cs | none
  let (month, cs) ← readFixed 2 cs
  let '-' :: cs := cs | none
  let (day, cs) ← readFixed 2 cs
  let date : Date := ⟨year, month, day⟩
  if date.isValid then some (date, cs) else none

def print (d : Date) : List Char :=
  printFixed 4 d.year ++ '-' :: printFixed 2 d.month ++ '-' :: printFixed 2 d.day

end Date

namespace Seconds

/-- The digits after the point, if there is one. -/
def readFraction : List Char → Option (Option (List Char) × List Char)
  | '.' :: cs =>
    let ds := cs.takeWhile Char.isDigit
    if ds.isEmpty then none else some (some ds, cs.dropWhile Char.isDigit)
  | cs => some (none, cs)

/-- The seconds after a colon, if there is one.  A minute may have a leap second. -/
def read : List Char → Option (Option Seconds × List Char)
  | ':' :: cs => do
    let (whole, cs) ← readFixed 2 cs
    let (fraction?, cs) ← readFraction cs
    if whole ≤ 60 then some (some ⟨whole, fraction?⟩, cs) else none
  | cs => some (none, cs)

/-- At most nine digits, without zeros at the end but for a lone one. -/
def printFraction (ds : List Char) : List Char :=
  let ds := ((ds.take 9).reverse.dropWhile (· = '0')).reverse
  if ds.isEmpty then ['0'] else ds

def print (s : Seconds) : List Char :=
  printFixed 2 s.whole ++ (s.fraction?.map fun ds => '.' :: printFraction ds).getD []

end Seconds

namespace Time

def read (cs : List Char) : Option (Time × List Char) := do
  let (hour, cs) ← readFixed 2 cs
  let ':' :: cs := cs | none
  let (minute, cs) ← readFixed 2 cs
  let (seconds?, cs) ← Seconds.read cs
  if hour ≤ 23 ∧ minute ≤ 59 then some (⟨hour, minute, seconds?⟩, cs) else none

def print (t : Time) : List Char :=
  printFixed 2 t.hour ++ ':' :: printFixed 2 t.minute ++ (t.seconds?.map fun s => ':' :: s.print).getD []

end Time

namespace Offset

/-- The hours and minutes of an offset. -/
def readMinutes (cs : List Char) : Option (Nat × List Char) := do
  let (hours, cs) ← readFixed 2 cs
  let ':' :: cs := cs | none
  let (minutes, cs) ← readFixed 2 cs
  if hours ≤ 23 ∧ minutes ≤ 59 then some (60 * hours + minutes, cs) else none

/-- An offset, if there is one. -/
def read (cs : List Char) : Option (Option Offset × List Char) :=
  match cs with
  | 'Z' :: cs => some (some .utc, cs)
  | 'z' :: cs => some (some .utc, cs)
  | '+' :: cs => (readMinutes cs).map fun r => (some (.ahead r.1), r.2)
  | '-' :: cs => (readMinutes cs).map fun r => (some (.ahead (-r.1)), r.2)
  | cs => some (none, cs)

def print : Offset → List Char
  | .utc => ['Z']
  | .ahead n =>
    (if n < 0 then '-' else '+') :: printFixed 2 (n.natAbs / 60) ++ ':' :: printFixed 2 (n.natAbs % 60)

end Offset

namespace DateTime

/-- Between a date and a time. -/
def isSeparator (c : Char) : Bool := c = 'T' || c = 't' || c = ' '

/-- What may follow a date: nothing, or a time with or without an offset. -/
def printAfterDate : List Char → Option (List Char)
  | [] => some []
  | c :: cs => do
    let (time, cs) ← Time.read cs
    let (offset?, rest) ← Offset.read cs
    if isSeparator c ∧ rest.isEmpty then some ('T' :: time.print ++ (offset?.map Offset.print).getD []) else none

/-- The canonical spelling of a date, a time, or both. -/
def canonical? (cs : List Char) : Option (List Char) :=
  match Date.read cs with
  | some (date, rest) => (printAfterDate rest).map (date.print ++ ·)
  | none =>
    match Time.read cs with
    | some (time, []) => some time.print
    | _ => none

end DateTime

end TagLint.Toml

import TagLint.Json.Mismatch

/-!
# Printer — values as JSON text without spaces
-/

namespace TagLint.Json

def hexDigit (n : Nat) : Char := Char.ofNat (if n < 10 then 48 + n else 87 + n)

/-- One character as it stands in a string literal. -/
def printChar (c : Char) : List Char :=
  match c with
  | '"' => ['\\', '"']
  | '\\' => ['\\', '\\']
  | '\n' => ['\\', 'n']
  | '\r' => ['\\', 'r']
  | '\t' => ['\\', 't']
  | '\x08' => ['\\', 'b']
  | '\x0c' => ['\\', 'f']
  | c => if c.toNat < 0x20 then ['\\', 'u', '0', '0', hexDigit (c.toNat / 16), hexDigit (c.toNat % 16)] else [c]

/-- A string literal. -/
def printString (s : String) : List Char := '"' :: s.toList.flatMap printChar ++ ['"']

def printNumber : Number → List Char
  | .natural n => Nat.toDigits 10 n
  | .negative n => '-' :: Nat.toDigits 10 n
  | .double x => (doubleText x).toList

mutual

def printChars : Json → List Char
  | .null => ['n', 'u', 'l', 'l']
  | .bool true => ['t', 'r', 'u', 'e']
  | .bool false => ['f', 'a', 'l', 's', 'e']
  | .number n => printNumber n
  | .string s => printString s
  | .array items => '[' :: printItems items ++ [']']
  | .object members => '\x7b' :: printMembers members ++ ['\x7d']

def printItems : List Json → List Char
  | [] => []
  | [j] => printChars j
  | j :: js => printChars j ++ ',' :: printItems js

def printMembers : List (String × Json) → List Char
  | [] => []
  | [(k, j)] => printString k ++ ':' :: printChars j
  | (k, j) :: ms => printString k ++ ':' :: printChars j ++ ',' :: printMembers ms

end

/-- The text of a value. -/
def print (j : Json) : String := String.ofList (printChars j)

end TagLint.Json

import TagLint.Json.Number

/-!
# Tokens — the words of a JSON text

`tokens` splits a text into its tokens.  A piece that is no token is kept as a token of its own with its fault, so
that whoever reads the tokens decides whether that fault or a misplaced token is reported.
-/

namespace TagLint.Json

/-- What a token is. -/
inductive Lexeme
  | openList
  | closeList
  | openObject
  | closeObject
  | colon
  | comma
  | string (s : String)
  /-- A value other than a string, list or object. -/
  | scalar (j : Json)
  /-- A malformed number, word or string. -/
  | malformed (f : Fault)
  /-- A character that starts no token. -/
  | stray
  | endOfText

/-- A token, with the rest of the text from it on and the rest after it. -/
structure Token where
  lexeme : Lexeme
  start : List Char
  stop : List Char

/-- White space between tokens. -/
def isSpace (c : Char) : Bool := c = ' ' || c = '\n' || c = '\t' || c = '\r'

/-- What is left after white space. -/
def skipSpace (cs : List Char) : List Char := cs.dropWhile isSpace

/-! ## Strings -/

def hexValue (c : Char) : Option Nat :=
  if '0' ≤ c ∧ c ≤ '9' then some (c.toNat - '0'.toNat)
  else if 'a' ≤ c ∧ c ≤ 'f' then some (c.toNat - 'a'.toNat + 10)
  else if 'A' ≤ c ∧ c ≤ 'F' then some (c.toNat - 'A'.toNat + 10)
  else none

/-- The value of four hexadecimal digits. -/
def hexFour (a b c d : Char) : Option Nat := do
  return (((← hexValue a) * 16 + (← hexValue b)) * 16 + (← hexValue c)) * 16 + (← hexValue d)

/-- The fault of text that does not start with four hexadecimal digits: four bytes are read at once. -/
def badHex (cs : List Char) : Fault :=
  if Text.byteLength cs < 4 then .before .endInString [] else ⟨.invalidEscape, cs, 4⟩

/-- The character that a letter after a backslash stands for. -/
def simpleEscape : Char → Option Char
  | '"' => some '"'
  | '\\' => some '\\'
  | '/' => some '/'
  | 'b' => some '\x08'
  | 'f' => some '\x0c'
  | 'n' => some '\n'
  | 'r' => some '\r'
  | 't' => some '\t'
  | _ => none

def isHighSurrogate (n : Nat) : Bool := 0xD800 ≤ n && n ≤ 0xDBFF

def isLowSurrogate (n : Nat) : Bool := 0xDC00 ≤ n && n ≤ 0xDFFF

/-- The character of a surrogate pair. -/
def joinSurrogates (high low : Nat) : Char :=
  Char.ofNat ((high - 0xD800) * 0x400 + (low - 0xDC00) + 0x10000)

/-- After the opening quote: the characters up to the closing quote, those before them given in reverse. -/
def readString (done : List Char) : List Char → Except Fault (List Char × List Char)
  | [] => .error (.before .endInString [])
  | '"' :: rest => .ok (done.reverse, rest)
  | ['\\'] => .error (.before .endInString [])
  | '\\' :: 'u' :: a :: b :: c :: d :: rest =>
    match hexFour a b c d with
    | none => .error (badHex (a :: b :: c :: d :: rest))
    | some n =>
      if isLowSurrogate n then .error (.before .loneSurrogate rest)
      else if isHighSurrogate n then
        match rest with
        | [] => .error (.before .endInString [])
        | ['\\'] => .error (.before .endInString [])
        | '\\' :: 'u' :: a' :: b' :: c' :: d' :: rest' =>
          match hexFour a' b' c' d' with
          | none => .error (badHex (a' :: b' :: c' :: d' :: rest'))
          | some low =>
            if isLowSurrogate low then readString (joinSurrogates n low :: done) rest'
            else .error (.before .loneSurrogate rest')
        | '\\' :: 'u' :: few => .error (badHex few)
        | '\\' :: other => .error (.atByte .unpairedSurrogate other)
        | other => .error (.atByte .unpairedSurrogate other)
      else readString (Char.ofNat n :: done) rest
  | '\\' :: 'u' :: few => .error (badHex few)
  | '\\' :: c :: rest =>
    match simpleEscape c with
    | some e => readString (e :: done) rest
    | none => .error (.atByte .invalidEscape (c :: rest))
  | c :: rest =>
    if c.toNat < 0x20 then .error (.atByte .controlCharacter (c :: rest)) else readString (c :: done) rest

/-! ## Words -/

/-- The letters of a word, one after the other. -/
def readWord (word : List Char) (cs : List Char) : Except Fault (List Char) :=
  match word, cs with
  | [], rest => .ok rest
  | _ :: _, [] => .error (.before .endInValue [])
  | w :: ws, c :: rest => if w = c then readWord ws rest else .error (.atByte .expectedIdent (c :: rest))

/-! ## Tokens -/

/-- A token made of the first character alone. -/
def single (lexeme : Lexeme) (cs : List Char) : Token := ⟨lexeme, cs, cs.drop 1⟩

/-- A token from the outcome of reading it. -/
def Token.ofRead {α : Type} (start : List Char) (lexeme : α → Lexeme) :
    Except Fault (α × List Char) → Token
  | .ok (a, rest) => ⟨lexeme a, start, rest⟩
  | .error f => ⟨.malformed f, start, []⟩

/-- The first token of a text. -/
def nextToken (text : List Char) : Token :=
  let cs := skipSpace text
  match cs with
  | [] => ⟨.endOfText, [], []⟩
  | '[' :: _ => single .openList cs
  | ']' :: _ => single .closeList cs
  | '\x7b' :: _ => single .openObject cs
  | '\x7d' :: _ => single .closeObject cs
  | ':' :: _ => single .colon cs
  | ',' :: _ => single .comma cs
  | '"' :: rest => .ofRead cs (fun s => .string (String.ofList s)) (readString [] rest)
  | 't' :: rest => .ofRead cs .scalar ((readWord ['r', 'u', 'e'] rest).map fun r => (.bool true, r))
  | 'f' :: rest => .ofRead cs .scalar ((readWord ['a', 'l', 's', 'e'] rest).map fun r => (.bool false, r))
  | 'n' :: rest => .ofRead cs .scalar ((readWord ['u', 'l', 'l'] rest).map fun r => (.null, r))
  | c :: _ =>
    if c = '-' || isDigit c then .ofRead cs (fun n => .scalar (.number n)) (readNumber cs)
    else single .stray cs

/-- Nothing is read after the end or after a malformed token. -/
def Token.isLast (t : Token) : Bool :=
  match t.lexeme with
  | .endOfText | .malformed _ => true
  | _ => false

/-- At most `count` tokens of a text. -/
def tokensUpTo : Nat → List Char → List Token
  | 0, _ => []
  | count + 1, text =>
    let t := nextToken text
    if t.isLast then [t] else t :: tokensUpTo count t.stop

/-- The tokens of a text, up to its end or its first malformed token. -/
def tokens (text : List Char) : List Token := tokensUpTo (text.length + 1) text

end TagLint.Json

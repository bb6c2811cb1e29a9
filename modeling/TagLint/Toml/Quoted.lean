import TagLint.Toml.Digit

/-!
# Strings in TOML

A string stands in double quotes, where a backslash starts an escape, or in single quotes, where nothing does.
Three quotes enclose a string of several lines: a line feed right after them does not count, up to two quotes may
stand right before the closing ones, and a backslash at the end of a line joins it with what follows.
-/

namespace TagLint.Toml

/-- Characters that may stand in strings and comments. -/
def isTextChar (c : Char) : Bool := c = '\t' || (0x20 ≤ c.toNat && c.toNat ≠ 0x7F)

/-- White space within a line. -/
def isBlank (c : Char) : Bool := c = ' ' || c = '\t'

/-! ## Where a string ends -/

/-- The text up to the closing quote, and what follows; `escapes`: a backslash protects the next character. -/
def untilQuote (quote : Char) (escapes : Bool) (done : List Char) : List Char → Option (List Char × List Char)
  | [] => none
  | [c] => if c = quote then some (done.reverse, []) else none
  | c :: d :: cs =>
    if c = quote then some (done.reverse, d :: cs)
    else if escapes && c = '\\' then untilQuote quote escapes (d :: c :: done) cs
    else untilQuote quote escapes (c :: done) (d :: cs)

/-- The text up to three closing quotes, and what follows. -/
def untilQuotes (quote : Char) (escapes : Bool) (done : List Char) : List Char → Option (List Char × List Char)
  | [] => none
  | [_] => none
  | c :: d :: cs =>
    let run := ((c :: d :: cs).takeWhile (· = quote)).length
    if 3 ≤ run then
      let closing := min run 5
      some (done.reverse ++ List.replicate (closing - 3) quote, (c :: d :: cs).drop closing)
    else if escapes && c = '\\' then untilQuotes quote escapes (d :: c :: done) cs
    else untilQuotes quote escapes (c :: done) (d :: cs)

/-! ## What a string says -/

/-- What the next character of a string belongs to. -/
inductive Phase
  | plain
  /-- After a carriage return: a line feed is due. -/
  | lineEnd
  /-- After a backslash. -/
  | escape
  /-- A character given by its number, of which some digits are still due. -/
  | number (due value : Nat)
  /-- After a backslash at the end of a line; `ended`: the line has ended. -/
  | joining (ended : Bool)
  /-- The same after a carriage return. -/
  | joiningLineEnd

/-- The character that a letter after a backslash stands for. -/
def simpleEscape : Char → Option Char
  | 'b' => some '\x08'
  | 't' => some '\t'
  | 'n' => some '\n'
  | 'f' => some '\x0c'
  | 'r' => some '\r'
  | 'e' => some '\x1b'
  | '"' => some '"'
  | '\\' => some '\\'
  | _ => none

/-- A character that is no part of an escape; `long`: in a string of several lines. -/
def stepPlain (escapes long : Bool) (c : Char) : Option (Phase × List Char) :=
  if escapes && c = '\\' then some (.escape, [])
  else if long && c = '\n' then some (.plain, ['\n'])
  else if long && c = '\r' then some (.lineEnd, ['\r'])
  else if isTextChar c then some (.plain, [c])
  else none

/-- Take a character of a string; also what it adds to the text. -/
def step (escapes long : Bool) : Phase → Char → Option (Phase × List Char)
  | .plain, c => stepPlain escapes long c
  | .lineEnd, c => if c = '\n' then some (.plain, ['\n']) else none
  | .escape, c =>
    match simpleEscape c with
    | some e => some (.plain, [e])
    | none =>
      if c = 'x' then some (.number 2 0, [])
      else if c = 'u' then some (.number 4 0, [])
      else if c = 'U' then some (.number 8 0, [])
      else if !long then none
      else if isBlank c then some (.joining false, [])
      else if c = '\n' then some (.joining true, [])
      else if c = '\r' then some (.joiningLineEnd, [])
      else none
  | .number due value, c => do
    let value := 16 * value + (← digitIn? 16 c)
    if 1 < due then some (.number (due - 1) value, [])
    else if value.isValidChar then some (.plain, [Char.ofNat value])
    else none
  | .joining ended, c =>
    if isBlank c then some (.joining ended, [])
    else if c = '\n' then some (.joining true, [])
    else if c = '\r' then some (.joiningLineEnd, [])
    else if ended then stepPlain escapes long c
    else none
  | .joiningLineEnd, c => if c = '\n' then some (.joining true, []) else none

/-- A string may end here. -/
def Phase.mayEnd : Phase → Bool
  | .plain => true
  | .joining ended => ended
  | _ => false

/-- The text that the rest of a string stands for. -/
def decodeFrom (escapes long : Bool) (phase : Phase) : List Char → Option (List Char)
  | [] => if phase.mayEnd then some [] else none
  | c :: cs => do
    let (phase, added) ← step escapes long phase c
    return added ++ (← decodeFrom escapes long phase cs)

/-- A string of several lines without the line feed right after its opening quotes. -/
def dropFirstLineEnd : List Char → List Char
  | '\n' :: cs => cs
  | '\r' :: '\n' :: cs => cs
  | cs => cs

/-- After the opening quote of a string of one line: its text, and what follows. -/
def readShort (quote : Char) (cs : List Char) : Option (String × List Char) := do
  let escapes := quote = '"'
  let (raw, rest) ← untilQuote quote escapes [] cs
  let text ← decodeFrom escapes false .plain raw
  return (String.ofList text, rest)

/-- After the opening quotes of a string of several lines: its text, and what follows. -/
def readLong (quote : Char) (cs : List Char) : Option (String × List Char) := do
  let escapes := quote = '"'
  let (raw, rest) ← untilQuotes quote escapes [] cs
  let text ← decodeFrom escapes true .plain (dropFirstLineEnd raw)
  return (String.ofList text, rest)

/-- After an opening quote: the text of the string, and what follows. -/
def readString (quote : Char) (cs : List Char) : Option (String × List Char) :=
  if cs.take 2 = [quote, quote] then readLong quote (cs.drop 2) else readShort quote cs

end TagLint.Toml

import TagLint.Toml.Number
import TagLint.Toml.Quoted
import TagLint.Toml.Tree

/-!
# Reader — the table of a TOML text

The text is read line by line.  A line opens a table, opens one more table of a list, or gives a value to a key of
the table that is open.  Lists and tables in braces may go over several lines, between any two of their tokens but
the parts of a key.
-/

namespace TagLint.Toml

/-! ## White space -/

def skipBlanks (cs : List Char) : List Char := cs.dropWhile isBlank

/-- What is left after white space, line ends and comments; `comment`: the text starts inside a comment. -/
def skipGap (comment : Bool) : List Char → Option (List Char)
  | [] => some []
  | '\n' :: cs => skipGap false cs
  | '\r' :: '\n' :: cs => skipGap false cs
  | c :: cs =>
    if comment then (if isTextChar c then skipGap true cs else none)
    else if isBlank c then skipGap false cs
    else if c = '#' then skipGap true cs
    else some (c :: cs)

/-- What is left after the end of a line on which nothing else but a comment may follow. -/
def skipLine (comment : Bool) : List Char → Option (List Char)
  | [] => some []
  | '\n' :: cs => some cs
  | '\r' :: '\n' :: cs => some cs
  | c :: cs =>
    if comment then (if isTextChar c then skipLine true cs else none)
    else if isBlank c then skipLine false cs
    else if c = '#' then skipLine true cs
    else none

/-! ## Keys -/

/-- Characters of a key without quotes. -/
def isBare (c : Char) : Bool := c.isAlphanum || c = '-' || c = '_'

def readKeyPart (cs : List Char) : Option (String × List Char) :=
  match cs with
  | '"' :: cs => readShort '"' cs
  | '\'' :: cs => readShort '\'' cs
  | cs =>
    let bare := cs.takeWhile isBare
    if bare.isEmpty then none else some (String.ofList bare, cs.dropWhile isBare)

/-- A key of at most `count` parts, with the white space after it. -/
def readKeyUpTo : Nat → List Char → Option (List String × List Char)
  | 0, _ => none
  | count + 1, cs => do
    let (part, cs) ← readKeyPart (skipBlanks cs)
    match skipBlanks cs with
    | '.' :: cs => do
      let (parts, cs) ← readKeyUpTo count cs
      return (part :: parts, cs)
    | cs => return ([part], cs)

/-- The most parts that a key may have. -/
def keyLimit : Nat := 80

/-- A key, dotted or not, with the white space after it. -/
def readKey (cs : List Char) : Option (List String × List Char) := readKeyUpTo keyLimit cs

/-- A key with the equals sign after it and the white space around that. -/
def readAssigned (cs : List Char) : Option (List String × List Char) := do
  let (key, cs) ← readKey cs
  let '=' :: cs := cs | none
  return (key, skipBlanks cs)

/-! ## Values -/

/-- Where a value without quotes and brackets ends. -/
def endsPlain (c : Char) : Bool :=
  isBlank c || c = '\n' || c = '\r' || c = ',' || c = ']' || c = '\x7d' || c = '#'

/-- A date that is followed by one space and a digit. -/
def isSplitDateTime (word rest : List Char) : Bool :=
  match Date.read word, rest with
  | some (_, []), ' ' :: c :: _ => c.isDigit
  | _, _ => false

/-- A value without quotes and brackets.  The space between a date and a time belongs to it. -/
def readPlain (cs : List Char) : Option (Toml × List Char) :=
  let isPart (c : Char) : Bool := !endsPlain c
  let word := cs.takeWhile isPart
  let rest := cs.dropWhile isPart
  if isSplitDateTime word rest then
    let time := (rest.drop 1).takeWhile isPart
    (readScalar (word ++ ' ' :: time)).map fun v => (v, (rest.drop 1).dropWhile isPart)
  else (readScalar word).map fun v => (v, rest)

/-- Lists and tables in braces may be open inside each other up to this depth. -/
def depthLimit : Nat := 80

mutual

/-- A value that takes at most `fuel` steps, in which at most `depth` brackets are open at once. -/
def readValueUpTo : Nat → Nat → List Char → Option (Toml × List Char)
  | 0, _, _ => none
  | fuel + 1, depth, cs =>
    match cs with
    | '"' :: cs => (readString '"' cs).map fun r => (.text r.1, r.2)
    | '\'' :: cs => (readString '\'' cs).map fun r => (.text r.1, r.2)
    | '[' :: cs => if depth = 0 then none else readItems fuel (depth - 1) [] cs
    | '\x7b' :: cs => if depth = 0 then none else readMembers fuel (depth - 1) [] cs
    | cs => readPlain cs

/-- The items of a list after those read so far, the latest first. -/
def readItems : Nat → Nat → List Toml → List Char → Option (Toml × List Char)
  | 0, _, _, _ => none
  | fuel + 1, depth, done, cs => do
    match ← skipGap false cs with
    | ']' :: cs => return (.array done.reverse, cs)
    | cs => do
      let (v, cs) ← readValueUpTo fuel depth cs
      match ← skipGap false cs with
      | ',' :: cs => readItems fuel depth (v :: done) cs
      | ']' :: cs => return (.array (v :: done).reverse, cs)
      | _ => none

/-- The entries of a table in braces after those read so far. -/
def readMembers : Nat → Nat → Table → List Char → Option (Toml × List Char)
  | 0, _, _, _ => none
  | fuel + 1, depth, t, cs => do
    match ← skipGap false cs with
    | '\x7d' :: cs => return (.table (finishEntries t), cs)
    | cs => do
      let (key, cs) ← readKey cs
      let '=' :: cs ← skipGap false cs | none
      let (v, cs) ← readValueUpTo fuel depth (← skipGap false cs)
      let t ← t.assign v key
      match ← skipGap false cs with
      | ',' :: cs => readMembers fuel depth t cs
      | '\x7d' :: cs => return (.table (finishEntries t), cs)
      | _ => none

end

/-- A value.  No step leaves the text as long as it was twice in a row. -/
def readValue (cs : List Char) : Option (Toml × List Char) := readValueUpTo (2 * cs.length + 2) depthLimit cs

/-! ## Documents -/

/-- What a line says. -/
inductive Line
  | openTable (key : List String)
  | openElement (key : List String)
  | assign (key : List String) (v : Toml)

/-- The line at the start of a text that is not empty, with the rest of the text after it. -/
def readLine (cs : List Char) : Option (Line × List Char) :=
  match cs with
  | '[' :: '[' :: cs => do
    let (key, cs) ← readKey cs
    let ']' :: ']' :: cs := cs | none
    return (.openElement key, ← skipLine false cs)
  | '[' :: cs => do
    let (key, cs) ← readKey cs
    let ']' :: cs := cs | none
    return (.openTable key, ← skipLine false cs)
  | cs => do
    let (key, cs) ← readAssigned cs
    let (v, cs) ← readValue cs
    return (.assign key v, ← skipLine false cs)

/-- At most `count` lines of a text. -/
def readLines : Nat → List Char → Option (List Line)
  | 0, _ => none
  | count + 1, cs => do
    match ← skipGap false cs with
    | [] => return []
    | cs => do
      let (line, cs) ← readLine cs
      return line :: (← readLines count cs)

/-- A document while it is read: its table, and the header under which the next line stands. -/
structure Draft where
  root : Table := []
  header : List String := []

/-- Change the table that holds the last part of a key. -/
def Draft.updateParent (d : Draft) (key : List String) (f : String → Table → Option Table) : Option Draft := do
  return ⟨← d.root.updateAt (f (← key.getLast?)) key.dropLast, key⟩

/-- A document with one more line. -/
def Draft.add (d : Draft) : Line → Option Draft
  | .openTable key => d.updateParent key Table.openTable
  | .openElement key => d.updateParent key Table.openElement
  | .assign key v => do
    return { d with root := ← d.root.updateAt (Table.assign v key) d.header }

/-- A text without the mark that may tell its byte order. -/
def dropMark : List Char → List Char
  | '\uFEFF' :: cs => cs
  | cs => cs

/-- The entries of the document in a text, if it is one. -/
def parse (text : String) : Option (List (String × Toml)) := do
  let cs := dropMark text.toList
  let draft ← (← readLines (cs.length + 1) cs).foldlM Draft.add {}
  return finishEntries draft.root

end TagLint.Toml

import TagLint.Toml.Number

/-!
# Layers — settings laid over each other

Tables are merged entry by entry at every depth; any other value replaces what was there.  The key of an entry at
the top may be a path, such as `rules.max-length` or `list[0]`; further down keys are taken as they are.
-/

namespace TagLint.Settings

open Toml (lookup? put)

/-- A step from a value into its parts. -/
inductive Step
  | key (k : String)
  /-- A place of a list, counted from its end when it is negative. -/
  | index (i : Int)
  deriving DecidableEq, Repr

/-! ## Merging -/

/-- The entries of a table; any other value has none. -/
def entriesOf : Option Toml → List (String × Toml)
  | some (.table entries) => entries
  | _ => []

/-- The items of a list; any other value has none. -/
def itemsOf : Option Toml → List Toml
  | some (.array items) => items
  | _ => []

mutual

/-- The value `v` laid over an old one. -/
def merge (old : Option Toml) : Toml → Toml
  | .table entries => .table (mergeEntries (entriesOf old) entries)
  | v => v

/-- Entries laid over old ones. -/
def mergeEntries (old : List (String × Toml)) : List (String × Toml) → List (String × Toml)
  | [] => old
  | (k, v) :: es => mergeEntries (put k (merge (lookup? old k) v) old) es

end

/-! ## Setting a value at a path -/

/-- Change the item at a place; a list that is too short is made longer at the end where the place is. -/
def setItem (f : Toml → Toml) (i : Int) (items : List Toml) : List Toml :=
  let missing (count : Nat) : List Toml := List.replicate count .missing
  if 0 ≤ i then (items ++ missing (i.toNat + 1 - items.length)).modify i.toNat f
  else (missing (i.natAbs - items.length) ++ items).modify (items.length - i.natAbs) f

/-- An old value with `v` laid over the part at a path. -/
def setAt (v : Toml) : List Step → Option Toml → Toml
  | [], old => merge old v
  | .key k :: steps, old =>
    let entries := entriesOf old
    .table (put k (setAt v steps (lookup? entries k)) entries)
  | .index i :: steps, old => .array (setItem (fun item => setAt v steps (some item)) i (itemsOf old))

/-! ## Paths -/

/-- Characters of a key in a path. -/
def isPathChar (c : Char) : Bool := c.isAlphanum || c = '_' || c = '-'

/-- A place in brackets, perhaps with white space around it. -/
def readIndex (cs : List Char) : Option Int :=
  let isSpace (c : Char) : Bool := c = ' ' || c = '\t'
  let number := ((cs.dropWhile isSpace).reverse.dropWhile isSpace).reverse
  let (negative, ds) := match number with
    | '-' :: ds => (true, ds)
    | ds => (false, ds)
  if ds.isEmpty then none
  else (ds.mapM (Toml.digitIn? 10)).bind fun ds =>
    Toml.inRange? (if negative then -(Toml.valueIn 10 ds : Int) else Toml.valueIn 10 ds)

/-- At most `count` steps of a path. -/
def readSteps : Nat → List Char → Option (List Step)
  | _, [] => some []
  | 0, _ => none
  | count + 1, c :: cs =>
    if c = '.' then do
      let name := cs.takeWhile isPathChar
      if name.isEmpty then none
      else return .key (String.ofList name) :: (← readSteps count (cs.dropWhile isPathChar))
    else if c = '[' then do
      let ']' :: rest := cs.dropWhile (· ≠ ']') | none
      return .index (← readIndex (cs.takeWhile (· ≠ ']'))) :: (← readSteps count rest)
    else none

/-- The path that a key at the top is: itself, when it does not read as one. -/
def keyPath (k : String) : String × List Step :=
  let cs := k.toList
  let root := cs.takeWhile isPathChar
  match root, readSteps cs.length (cs.dropWhile isPathChar) with
  | [], _ => (k, [])
  | root, some steps => (String.ofList root, steps)
  | _, none => (k, [])

/-! ## Layers -/

/-- The value of a setting, and the file that gave it as it stands. -/
structure Setting where
  value : Toml
  file? : Option String

/-- The file that a setting comes from when `v` from a file is laid over the part of an old one at a path: a table is
of no one file, and a list stays with the file that gave it. -/
def fileOf (file : String) (v : Toml) (steps : List Step) (old? : Option Setting) : Option String :=
  match steps, v, old? with
  | [], .table _, _ => none
  | [], _, _ => some file
  | .index _ :: _, _, some ⟨.array _, file?⟩ => file?
  | _, _, _ => none

/-- Lay one entry of a file over settings. -/
def layEntry (file : String) (settings : List (String × Setting)) (entry : String × Toml) : List (String × Setting) :=
  let (root, steps) := keyPath entry.1
  let old? := lookup? settings root
  put root ⟨setAt entry.2 steps (old?.map (·.value)), fileOf file entry.2 steps old?⟩ settings

/-- The entries of a file. -/
structure Layer where
  file : String
  entries : List (String × Toml)

/-- Lay the entries of a file over settings. -/
def lay (settings : List (String × Setting)) (layer : Layer) : List (String × Setting) :=
  layer.entries.foldl (layEntry layer.file) settings

/-- Files laid over each other, the last one on top. -/
def layAll (layers : List Layer) : List (String × Setting) := layers.foldl lay []

end TagLint.Settings

import TagLint.Files.FileSystem
import TagLint.SortedMap
import TagLint.Text.Units

/-!
# Directory trees — files below a current directory

Files are found by walking the pieces of a path from the root or from the current directory, which exists even if it
is empty.  `..` leads to the directory above, and every piece needs a directory to start from.
-/

namespace TagLint

/-- Texts by the names on the way to them from the root. -/
structure DirectoryTree where
  files : SortedMap (List String) String
  current : List String

namespace DirectoryTree

/-- The tree without files. -/
def new (current : List String) : DirectoryTree := ⟨.empty, current⟩

/-- Whether the names lead to a directory: one above a file, or the current one or one above it. -/
def hasDirectory (t : DirectoryTree) (names : List String) : Bool :=
  names.isPrefixOf t.current || t.files.keys.any fun k => k ≠ names && names.isPrefixOf k

/-- The most bytes of one piece of a path. -/
def pieceLimit : Nat := 255

/-- The most bytes of a path. -/
def pathLimit : Nat := 4095

/-- One piece further from a place. -/
def step (t : DirectoryTree) (names : List String) (piece : List Char) : Except ReadError (List String) :=
  if !t.hasDirectory names then .error .notDirectory
  else if piece = [] ∨ piece = ['.'] then .ok names
  else if piece = ['.', '.'] then .ok names.dropLast
  else if pieceLimit < Text.byteLength piece then .error .nameTooLong
  else
    let next := names ++ [String.ofList piece]
    if t.files.contains next || t.hasDirectory next then .ok next else .error .notFound

/-- The names that a path leads to. -/
def walk (t : DirectoryTree) (p : Path) : Except ReadError (List String) :=
  if p.text.isEmpty then .error .notFound
  else if pathLimit < p.text.utf8ByteSize then .error .nameTooLong
  else (Text.splitAt '/' p.text.toList).foldlM t.step (if p.isAbsolute then [] else t.current)

def read (t : DirectoryTree) (p : Path) : Except ReadError String := do
  match t.files.get? (← t.walk p) with
  | some text => return text
  | none => throw .isDirectory

def isDirectory (t : DirectoryTree) (p : Path) : Bool :=
  match t.walk p with
  | .ok names => t.hasDirectory names
  | .error _ => false

/-- Add a file whose path is given from the current directory. -/
def addFile (t : DirectoryTree) (p : Path) (text : String) : DirectoryTree :=
  let names := p.components.filterMap fun
    | .name n => some n
    | _ => none
  { t with files := t.files.insert (t.current ++ names) text }

def fileSystem (t : DirectoryTree) : FileSystem := ⟨t.read, t.isDirectory⟩

end DirectoryTree

end TagLint

import TagLint.Files.FileSystem
import TagLint.SortedMap

/-!
# Files in memory — a file system as a map from paths to texts

Files are found by the components of their path.  Directories are implied: every path above a file is one.
-/

namespace TagLint

/-- Texts by the components of their paths. -/
abbrev MemoryFiles := SortedMap (List Component) String

namespace MemoryFiles

def addFile (files : MemoryFiles) (p : Path) (text : String) : MemoryFiles := files.insert p.components text

def removeFile (files : MemoryFiles) (p : Path) : MemoryFiles := files.erase p.components

def read (files : MemoryFiles) (p : Path) : Except ReadError String :=
  match files.get? p.components with
  | some text => .ok text
  | none => .error (.notHeld p)

/-- Whether a file lies somewhere below a path. -/
def isDirectory (files : MemoryFiles) (p : Path) : Bool :=
  files.keys.any fun k => k ≠ p.components && p.components.isPrefixOf k

def fileSystem (files : MemoryFiles) : FileSystem := ⟨files.read, files.isDirectory⟩

end MemoryFiles

end TagLint

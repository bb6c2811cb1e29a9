import TagLint.Files.FileSystem

/-!
# Snapshots — what reading some paths gave
-/

namespace TagLint

/-- The outcome of reading, path by path. -/
abbrev Snapshot := List (Path × Except ReadError String)

namespace Snapshot

/-- What reading a path gave; a path that was not read counts as absent. -/
def read (s : Snapshot) (p : Path) : Except ReadError String :=
  match s.find? fun e => e.1 = p with
  | some e => e.2
  | none => .error .notFound

/-- Directories are the paths that could not be read because they are directories. -/
def isDirectory (s : Snapshot) (p : Path) : Bool :=
  match s.read p with
  | .error .isDirectory => true
  | _ => false

def fileSystem (s : Snapshot) : FileSystem := ⟨s.read, s.isDirectory⟩

end Snapshot

end TagLint

import TagLint.Path

/-!
# File systems — what reading a path gives
-/

namespace TagLint

/-- Why a file cannot be read. -/
inductive ReadError
  | notFound
  /-- No such file among those that are held in memory. -/
  | notHeld (p : Path)
  /-- A file where a directory is needed. -/
  | notDirectory
  | isDirectory
  | permissionDenied
  | nameTooLong
  /-- Bytes that are no text.  In `repaired` replacement characters stand for those that are none. -/
  | notText (repaired : String)
  | other (message : String)
  deriving DecidableEq, Repr

namespace ReadError

def message : ReadError → String
  | .notFound => "No such file or directory (os error 2)"
  | .notHeld p => p.text ++ " not found"
  | .notDirectory => "Not a directory (os error 20)"
  | .isDirectory => "Is a directory (os error 21)"
  | .permissionDenied => "Permission denied (os error 13)"
  | .nameTooLong => "File name too long (os error 36)"
  | .notText _ => "stream did not contain valid UTF-8"
  | .other message => message

/-- Whether nothing can be read because there is no file. -/
def isAbsence : ReadError → Bool
  | .notFound | .notHeld _ | .notDirectory | .isDirectory | .nameTooLong => true
  | .permissionDenied | .notText _ | .other _ => false

end ReadError

/-- The files as they are at one moment. -/
structure FileSystem where
  read : Path → Except ReadError String
  isDirectory : Path → Bool

namespace FileSystem

/-- Whether a path leads to a file, if perhaps to one that cannot be read. -/
def hasFile (fs : FileSystem) (p : Path) : Bool :=
  match fs.read p with
  | .ok _ => true
  | .error e => !e.isAbsence

/-- The text of a file, repaired if its bytes are none. -/
def textOf? (fs : FileSystem) (p : Path) : Option String :=
  match fs.read p with
  | .ok text | .error (.notText text) => some text
  | .error _ => none

end FileSystem

end TagLint

import TagLint.CommandLine.Transcript
import TagLint.Files.Snapshot
import TagLint.Text.Bytes

/-!
# The program

Everything that a check may read is read first; what is printed then follows from that alone.
-/

namespace TagLint.CommandLine

/-- The code that systems give to reading a directory as a file. -/
def isDirectoryCode : UInt32 := 21

/-- The code that systems give to a name that is too long. -/
def nameTooLongCode : UInt32 := 36

/-- Why reading failed. -/
def readErrorOf : IO.Error → ReadError
  | .noFileOrDirectory .. => .notFound
  | .inappropriateType _ code _ => if code = isDirectoryCode then .isDirectory else .notDirectory
  | .permissionDenied .. => .permissionDenied
  | e@(.invalidArgument _ code _) => if code = nameTooLongCode then .nameTooLong else .other (toString e)
  | e => .other (toString e)

def readPath (p : Path) : IO (Path × Except ReadError String) := do
  try
    let bytes ← IO.FS.readBinFile p.text
    match String.fromUTF8? bytes with
    | some text => return (p, .ok text)
    | none => return (p, .error (.notText (String.ofList (Text.repair bytes.data.toList))))
  catch e =>
    return (p, .error (readErrorOf e))

/-- The directory that a variable of the environment names. -/
def directoryOf (name : String) : IO (Option Path) := do
  return (← IO.getEnv name).map Path.mk

/-- Run the program with its arguments and give its exit code. -/
def runIn (args : List String) : IO UInt32 := do
  let workingDir : Path := ⟨toString (← IO.currentDir)⟩
  let env : Environment :=
    ⟨workingDir, Settings.userFile? (← directoryOf "XDG_CONFIG_HOME") (← directoryOf "HOME")⟩
  let style : Report.Style := if ← (← IO.getStdout).isTty then .styled else .plain
  let snapshot : Snapshot ←
    match parse args with
    | .error _ => pure []
    | .ok invocation => (pathsOf env invocation.check).mapM readPath
  let done := run style snapshot.fileSystem env args
  IO.print done.stdout
  IO.eprint done.stderr
  return done.code.toUInt32

end TagLint.CommandLine

def main (args : List String) : IO UInt32 := TagLint.CommandLine.runIn args

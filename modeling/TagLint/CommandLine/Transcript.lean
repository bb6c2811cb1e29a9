import TagLint.CommandLine.Check
import TagLint.CommandLine.LogLine
import TagLint.Report.Snippet

/-!
# Transcripts — what a run of the program prints, and its exit code

The exit code is 0 when nothing was found, 1 when something was found or a step failed, and 2 when the arguments
make no sense.
-/

namespace TagLint.CommandLine

/-- The output of a run. -/
structure Transcript where
  code : Nat
  stdout : String
  stderr : String
  deriving DecidableEq, Repr

def versionLine : String := "isls 0.1.0\n"

/-- The output of a run without a check. -/
def Stop.transcript : Stop → Transcript
  | .help page => ⟨0, page.text, ""⟩
  | .version => ⟨0, versionLine, ""⟩
  | .usage => ⟨2, "", "error: these arguments make no sense\n\nFor more information, try '--help'.\n"⟩

/-- The findings one after the other, each followed by an empty line. -/
def renderAll (style : Report.Style) (options : CheckOptions) (d : Document) (findings : List Finding) : String :=
  String.join (findings.map fun f => Report.render style d.text options.source.text f ++ "\n\n")

def summary (count : Nat) : String :=
  "Found " ++ toString count ++ (if count = 1 then " error." else " errors.") ++ "\n"

/-- The output of a check, its log aside. -/
def transcriptOf (style : Report.Style) (invocation : Invocation) :
    Except CheckError (Document × List Finding) → Transcript
  | .error e => ⟨1, "", "Error: " ++ e.message ++ "\n"⟩
  | .ok (_, []) => ⟨0, "", ""⟩
  | .ok (d, findings) =>
    let shown := if invocation.flags.quiet then "" else renderAll style invocation.check d findings
    ⟨1, shown, summary findings.length⟩

/-- The output of a check. -/
def runCheck (style : Report.Style) (fs : FileSystem) (env : Environment) (invocation : Invocation) : Transcript :=
  let done := check fs env invocation.check
  let t := transcriptOf style invocation done.value
  { t with stderr := logLines invocation.flags.level done.log ++ t.stderr }

/-- The output of the program. -/
def run (style : Report.Style) (fs : FileSystem) (env : Environment) (args : List String) : Transcript :=
  match parse args with
  | .error stop => stop.transcript
  | .ok invocation => runCheck style fs env invocation

end TagLint.CommandLine

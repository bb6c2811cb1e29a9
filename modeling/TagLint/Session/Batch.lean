import TagLint.Document
import TagLint.Report.Diagnostic
import TagLint.Session.Failure

/-!
# Batch reports — the outcome of validating several documents

Every document has an entry, in the order in which the documents were given.  One whose validation failed has no
diagnostics, and its failure stands among the failures.
-/

namespace TagLint

/-- A document with the diagnostics of its validation, or its failure. -/
structure Outcome where
  document : Document
  result : Except Failure (List Report.Diagnostic)

namespace Outcome

/-- The diagnostics of a document: none when its validation failed. -/
def diagnostics (o : Outcome) : List Report.Diagnostic :=
  match o.result with
  | .ok ds => ds
  | .error _ => []

def failure? (o : Outcome) : Option Failure :=
  match o.result with
  | .ok _ => none
  | .error f => some f

end Outcome

/-- The diagnostics of one document of a batch. -/
structure DocumentReport where
  path : Path
  diagnostics : List Report.Diagnostic

structure BatchReport where
  documents : List DocumentReport
  failures : List Failure

namespace BatchReport

/-- Nothing was validated. -/
def empty : BatchReport := ⟨[], []⟩

/-- The report of what came out, document by document. -/
def ofOutcomes (os : List Outcome) : BatchReport :=
  ⟨os.map fun o => ⟨o.document.path, o.diagnostics⟩, os.filterMap (·.failure?)⟩

/-- One message for all failures, if there are any. -/
def errorMessage? (r : BatchReport) : Option String :=
  if r.failures.isEmpty then none
  else
    let count := r.failures.length
    let files := if count = 1 then "file" else "files"
    let lines := r.failures.map fun f => "\n- " ++ f.message
    some ("Failed to validate " ++ toString count ++ " " ++ files ++ ":" ++ String.join lines)

/-- The diagnostics of the first document at a path. -/
def diagnosticsFor? (r : BatchReport) (p : Path) : Option (List Report.Diagnostic) :=
  (r.documents.find? fun d => d.path.same p).map (·.diagnostics)

end BatchReport

end TagLint

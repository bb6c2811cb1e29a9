import TagLint.Proofs.DocumentEdits
import TagLint.Proofs.SessionSettings

/-!
# Revalidation — the report on all open documents

* `documents_after`: what is open in a session are the edits among the requests, whatever else was asked.
* `value_validateOpen`: the report is made of the outcomes of the open documents, each validated on its own.
* `diagnosticsFor?_ofOutcomes`: the first entry for a path is the one for the document that is open there.

`validateOpen_covers` puts these together for the sessions that requests lead to.
-/

open Std

namespace TagLint

/-! ## Reports -/

namespace BatchReport

/-- There is a message when something failed. -/
theorem isSome_errorMessage? (r : BatchReport) : r.errorMessage?.isSome ↔ r.failures.length ≠ 0 := by
  rw [errorMessage?, ne_eq, List.length_eq_zero_iff]
  by_cases h : r.failures = []
  · simp [h]
  · have hne : ¬ r.failures.isEmpty := fun hempty => h (List.isEmpty_iff.mp hempty)
    rw [if_neg hne]
    simp [h]

theorem length_failures_ofOutcomes (os : List Outcome) :
    (ofOutcomes os).failures.length = os.countP fun o => o.failure?.isSome := List.length_filterMap_eq_countP

end BatchReport

namespace Session

open OpenDocuments (Edit Writes)

variable {fs : FileSystem} {disk : List Component → CacheEntry} {s : Session}

/-! ## Open documents of a session -/

/-- The edit of open documents that a request is. -/
def Request.edit? : Request → Option Edit
  | .openDocument d => some (.openDocument d)
  | .updateDocument d => some (.update d)
  | .closeDocument p => some (.close p)
  | _ => none

/-- The edits among some requests. -/
def edits (history : List (FileSystem × Request)) : List Edit := history.filterMap fun m => m.2.edit?

/-- Only edits change the open documents. -/
theorem documents_handle (fs : FileSystem) (s : Session) (r : Request) :
    (s.handle fs r).documents = (r.edit?.toList).foldl OpenDocuments.edit s.documents := by
  have hlook : r.looksUp → (s.handle fs r).documents = s.documents := fun h => (handle_learns fs s h).1.documents
  cases r with
  | resolve | check | validate | validateBatch | validateOpen => exact hlook rfl
  | enable =>
    rw [handle, value_enable]
    rfl
  | disable =>
    rw [handle, value_disable]
    rfl
  | changeSettings settings =>
    rw [handle, value_changeSettings]
    rfl
  | didChangeFiles | openDocument | updateDocument | closeDocument => rfl

theorem foldl_documents_after (s : Session) (history : List (FileSystem × Request)) :
    (s.after history).documents = (edits history).foldl OpenDocuments.edit s.documents := by
  induction history generalizing s with
  | nil => rfl
  | cons m history ih =>
    have hedits : edits (m :: history) = m.2.edit?.toList ++ edits history := by
      rw [edits, List.filterMap_cons]
      cases m.2.edit? <;> rfl
    rw [after_cons, ih, documents_handle, hedits, List.foldl_append]

/-- The open documents of a session are those that its edits leave. -/
theorem documents_after (initial : Settings) (wd : Option Path) (maker : ValidatorMaker)
    (history : List (FileSystem × Request)) :
    (((new initial wd).withMaker maker).after history).documents = OpenDocuments.after (edits history) :=
  foldl_documents_after _ history

/-! ## The report -/

/-- What validating a document on its own comes to. -/
def outcome (fs : FileSystem) (s : Session) (d : Document) : Outcome := ⟨d, (s.validate fs d).value.1⟩

theorem value_validateOpen (hd : ∀ d ∈ s.documents.toList, Cascade.Holds fs disk (s.candidates fs d)) :
    (s.validateOpen fs).value.1 = .ofOutcomes (s.documents.toList.map (s.outcome fs)) := by
  rw [validateOpen, value_validateBatch, value_validateEach hd]
  rfl

/-- Validating the open documents changes the outcome of none of them. -/
theorem outcome_validateOpen (hd : ∀ d ∈ s.documents.toList, Cascade.Holds fs disk (s.candidates fs d)) :
    ∀ d ∈ s.documents.toList, (s.validateOpen fs).value.2.outcome fs d = s.outcome fs d := by
  intro d hmem
  have hkeeps := validateEach_keeps fs s s.documents.toList
  rw [validateOpen, value_validateBatch, outcome, value_validate_congr (hd d hmem) hkeeps (validateEach_remembers hd),
    outcome]

theorem diagnosticsFor?_ofOutcomes (s : Session) (p : Path) :
    (BatchReport.ofOutcomes (s.documents.toList.map (s.outcome fs))).diagnosticsFor? p =
      (s.documents.get? p).map fun d => (s.outcome fs d).diagnostics := by
  rw [BatchReport.diagnosticsFor?, BatchReport.ofOutcomes, List.map_map, List.find?_map, Option.map_map,
    ← OpenDocuments.find?_toList]
  rfl

/-- **Revalidation covers the open documents.**  In every session that requests lead to, the report on the open
documents answers for a path when a document is open there, with what validating that document gives; this is the
document that the last edit of the path wrote.  There is one entry for every open document, in path order, as many
failures as documents that fail on their own, and a message when there are any.  Validating one of them afterwards comes
to the same.  The rule files above the open documents are to be read alike in every spelling that these have of
them. -/
theorem validateOpen_covers (initial : Settings) (wd : Option Path) (maker : ValidatorMaker)
    (history : List (FileSystem × Request)) (now : FileSystem) :
    let s := ((new initial wd).withMaker maker).after history
    let report := (s.validateOpen now).value.1
    now.ReadsAlike (s.ruleFilesFor now s.documents.toList) →
    (∀ p, report.diagnosticsFor? p = (s.documents.get? p).map fun d => (s.outcome now d).diagnostics) ∧
    (∀ p d, s.documents.get? p = some d ↔ d.path.same p ∧ ∃ before e later, edits history = before ++ e :: later ∧
      Writes before d e ∧ ∀ x ∈ later, ¬ x.path.same p) ∧
    report.documents = s.documents.toList.map (fun d => ⟨d.path, (s.outcome now d).diagnostics⟩) ∧
    (∀ p, s.documents.toList.filter (fun d => d.path.same p) = (s.documents.get? p).toList) ∧
    s.documents.toList.Pairwise (fun a b => compare a.key b.key = .lt) ∧
    report.failures.length = s.documents.toList.countP (fun d => (s.outcome now d).failure?.isSome) ∧
    (report.errorMessage?.isSome ↔ report.failures.length ≠ 0) ∧
    ∀ d ∈ s.documents.toList, (s.validateOpen now).value.2.outcome now d = s.outcome now d := by
  intro s report hfs
  obtain ⟨disk, hd⟩ := exists_holds hfs
  have hdocs : s.documents = OpenDocuments.after (edits history) := documents_after initial wd maker history
  have hreport : report = .ofOutcomes (s.documents.toList.map (s.outcome now)) := value_validateOpen hd
  refine ⟨fun p => ?_, fun p d => ?_, ?_, s.documents.filter_toList, s.documents.pairwise_key_toList, ?_,
    report.isSome_errorMessage?, outcome_validateOpen hd⟩
  · rw [hreport]
    exact diagnosticsFor?_ofOutcomes s p
  · rw [hdocs]
    exact OpenDocuments.get?_after_eq_some_iff
  · rw [hreport, BatchReport.ofOutcomes, List.map_map]
    rfl
  · rw [hreport, BatchReport.length_failures_ofOutcomes, List.countP_map]
    rfl

/-- A document whose rule file makes no validator, one that is updated under another spelling of its path, and one
that is closed again. -/
def editedHistory : List (FileSystem × Request) :=
  [.openDocument (imageDocument "/bad/a.isml"), .openDocument (imageDocument "//page.isml"),
    .openDocument (imageDocument "/closed.isml"), .updateDocument (imageDocument "/page.isml"), .validateOpen,
    .closeDocument ⟨"/closed.isml"⟩].map fun r => (batchTree.fileSystem, r)

/-- The session after these requests. -/
def editedSession : Session := ((new .defaults (some ⟨"/"⟩)).withMaker .standard).after editedHistory

theorem validateOpen_covers_editedHistory :
    let now := batchTree.fileSystem
    let report := (editedSession.validateOpen now).value.1
    now.ReadsAlike (editedSession.ruleFilesFor now editedSession.documents.toList) ∧
    report.documents.map (fun d => (d.path.text, d.diagnostics.length)) = [("/bad/a.isml", 0), ("/page.isml", 1)] ∧
    (report.diagnosticsFor? ⟨"/./page.isml"⟩).map List.length = some 1 ∧
    (report.diagnosticsFor? ⟨"/closed.isml"⟩).map List.length = none ∧
    report.failures.length = 1 ∧ report.errorMessage?.isSome := by
  intro now report
  have hfs : now.ReadsAlike (editedSession.ruleFilesFor now editedSession.documents.toList) := by
    unfold FileSystem.ReadsAlike
    decide +kernel
  have hcovers := validateOpen_covers .defaults (some ⟨"/"⟩) .standard editedHistory now
  rw [← editedSession] at hcovers
  obtain ⟨hfor, -, hdocs, -, -, hfailures, hmessage, -⟩ := hcovers hfs
  have hcount : editedSession.documents.toList.countP
      (fun d => (editedSession.outcome now d).failure?.isSome) = 1 := by decide +kernel
  have hfailed : report.failures.length = 1 := hfailures.trans hcount
  have hsome : report.errorMessage?.isSome := hmessage.mpr fun hzero => by omega
  refine ⟨hfs, ?_, ?_, ?_, hfailed, hsome⟩
  · rw [hdocs]
    decide +kernel
  · rw [hfor]
    decide +kernel
  · rw [hfor]
    decide +kernel

end Session

end TagLint

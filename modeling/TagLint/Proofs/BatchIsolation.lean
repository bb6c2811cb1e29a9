import TagLint.Files.Tree
import TagLint.Proofs.CascadeView
import TagLint.Session

/-!
# Isolation — documents of a batch do not touch each other

The documents of a batch share the cache, and each of them leaves what it saw there.  Since what is remembered changes
no view, every document is validated as it would be alone (`value_validateEach`), and the cache at the end holds what
was seen by any of them, in whatever order (`validateEach_remembers`).
-/

namespace TagLint.Session

variable {fs : FileSystem} {disk : List Component → CacheEntry} {s s' s'' : Session}

/-- The directories whose rule file may apply to a document. -/
def candidates (fs : FileSystem) (s : Session) (d : Document) : List Path := s.cascade.candidates fs d.path

/-- The directories that validating a document goes through. -/
def consulted (fs : FileSystem) (disk : List Component → CacheEntry) (s : Session) (d : Document) :
    List (List Component) :=
  match s.engine with
  | .disabled => []
  | .enabled => s.cascade.consulted fs disk d.path

/-! ## What validating leaves alone -/

/-- `s'` differs from `s` in what is known about rule files, at most. -/
structure Keeps (s s' : Session) : Prop where
  engine : s'.engine = s.engine
  settings : s'.settings = s.settings
  documents : s'.documents = s.documents
  maker : s'.maker = s.maker

theorem Keeps.refl (s : Session) : Keeps s s := ⟨rfl, rfl, rfl, rfl⟩

theorem Keeps.trans (h : Keeps s s') (h' : Keeps s' s'') : Keeps s s'' where
  engine := h'.engine.trans h.engine
  settings := h'.settings.trans h.settings
  documents := h'.documents.trans h.documents
  maker := h'.maker.trans h.maker

theorem value_resolve (s : Session) (p : Path) :
    (s.resolve fs p).value =
      ((s.cascade.resolve fs p).value.1, { s with cascade := (s.cascade.resolve fs p).value.2 }) := rfl

/-- The session after a validation: the rules for the path have been looked up, unless the engine is off. -/
theorem state_validate (fs : FileSystem) (s : Session) (d : Document) :
    (s.validate fs d).value.2 =
      match s.engine with
      | .disabled => s
      | .enabled => { s with cascade := (s.cascade.resolve fs d.path).value.2 } := by
  obtain ⟨engine, settings, cascade, documents, maker⟩ := s
  rw [validate, Logged.value_bind, check]
  cases engine <;> rfl

theorem validate_keeps (fs : FileSystem) (s : Session) (d : Document) : Keeps s (s.validate fs d).value.2 := by
  rw [state_validate]
  split
  · exact .refl s
  · exact ⟨rfl, rfl, rfl, rfl⟩

theorem validateEach_keeps (fs : FileSystem) (s : Session) (ds : List Document) :
    Keeps s (s.validateEach fs ds).value.2 := by
  induction ds generalizing s with
  | nil => exact .refl s
  | cons d ds ih => exact (validate_keeps fs s d).trans (ih (s.validate fs d).value.2)

/-! ## One document -/

/-- A disabled session finds nothing; else the rules in force for the path are run. -/
theorem value_validate (s : Session) (d : Document) :
    (s.validate fs d).value.1 =
      match s.engine with
      | .disabled => .ok []
      | .enabled =>
        (run s.maker (s.cascade.resolve fs d.path).value.1 d).value.map (Report.diagnostics d.text) := by
  rw [validate, Logged.value_bind, check]
  cases s.engine <;> rfl

theorem validate_remembers {d : Document} (hd : Cascade.Holds fs disk (s.candidates fs d)) :
    Cascade.Remembers disk s.cascade (s.consulted fs disk d) (s.validate fs d).value.2.cascade := by
  rw [state_validate, consulted]
  cases s.engine with
  | disabled => exact .refl disk s.cascade
  | enabled => exact Cascade.resolve_remembers hd

theorem candidates_congr {seen : List (List Component)} (h : Cascade.Remembers disk s.cascade seen s'.cascade)
    (d : Document) : s'.candidates fs d = s.candidates fs d := Cascade.candidates_congr h.workingDir d.path

theorem value_validate_congr {d : Document} (hd : Cascade.Holds fs disk (s.candidates fs d)) (hk : Keeps s s')
    {seen : List (List Component)} (h : Cascade.Remembers disk s.cascade seen s'.cascade) :
    (s'.validate fs d).value.1 = (s.validate fs d).value.1 := by
  rw [value_validate, value_validate, hk.engine, hk.maker, Cascade.value_resolve_congr hd h]

theorem consulted_congr (hk : Keeps s s') {seen : List (List Component)}
    (h : Cascade.Remembers disk s.cascade seen s'.cascade) : s'.consulted fs disk = s.consulted fs disk := by
  funext d
  rw [consulted, consulted, hk.engine, Cascade.consulted_congr h]

/-! ## Batches -/

theorem value_validateEach {ds : List Document} (hd : ∀ d ∈ ds, Cascade.Holds fs disk (s.candidates fs d)) :
    (s.validateEach fs ds).value.1 = ds.map fun d => ⟨d, (s.validate fs d).value.1⟩ := by
  induction ds generalizing s with
  | nil => rfl
  | cons d ds ih =>
    obtain ⟨hfirst, hrest⟩ := List.forall_mem_cons.mp hd
    have hkeeps := validate_keeps fs s d
    have hstep := validate_remembers hfirst
    show (⟨d, (s.validate fs d).value.1⟩ : Outcome) :: ((s.validate fs d).value.2.validateEach fs ds).value.1 = _
    rw [ih fun d' hd' => (candidates_congr hstep d').symm ▸ hrest d' hd', List.map_cons]
    congr 1
    exact List.map_congr_left fun d' hd' => by rw [value_validate_congr (hrest d' hd') hkeeps hstep]

theorem validateEach_remembers {ds : List Document} (hd : ∀ d ∈ ds, Cascade.Holds fs disk (s.candidates fs d)) :
    Cascade.Remembers disk s.cascade (ds.flatMap (s.consulted fs disk)) (s.validateEach fs ds).value.2.cascade := by
  induction ds generalizing s with
  | nil => exact .refl disk s.cascade
  | cons d ds ih =>
    obtain ⟨hfirst, hrest⟩ := List.forall_mem_cons.mp hd
    have hstep := validate_remembers hfirst
    have hmore := ih fun d' hd' => (candidates_congr hstep d').symm ▸ hrest d' hd'
    rw [consulted_congr (validate_keeps fs s d) hstep] at hmore
    exact hstep.trans hmore

theorem value_validateBatch (s : Session) (ds : List Document) :
    (s.validateBatch fs ds).value =
      (BatchReport.ofOutcomes (s.validateEach fs ds).value.1, (s.validateEach fs ds).value.2) := by
  rw [validateBatch, Logged.value_bind]
  cases (s.validateEach fs ds).value with
  | mk outcomes after =>
    dsimp only
    split <;> rfl

/-- The cache after a batch does not depend on the order of its documents. -/
theorem cache_validateEach_perm {ds ds' : List Document} (h : ds.Perm ds')
    (hd : ∀ d ∈ ds, Cascade.Holds fs disk (s.candidates fs d)) :
    (s.validateEach fs ds').value.2.cascade.cache = (s.validateEach fs ds).value.2.cascade.cache := by
  refine SortedMap.ext_get? fun ks => ?_
  have hmem : ks ∈ ds'.flatMap (s.consulted fs disk) ↔ ks ∈ ds.flatMap (s.consulted fs disk) := by
    simp only [List.mem_flatMap, h.mem_iff]
  have hd' : ∀ d ∈ ds', Cascade.Holds fs disk (s.candidates fs d) := fun d hmem' => hd d (h.mem_iff.mpr hmem')
  rw [(validateEach_remembers hd').get?, (validateEach_remembers hd).get?]
  simp only [hmem]

/-- The rule files that may apply to some documents, as the look-ups spell them. -/
def ruleFilesFor (fs : FileSystem) (s : Session) (ds : List Document) : List Path :=
  (ds.flatMap (s.candidates fs)).map Cascade.ruleFile

/-- Files that go by components hold the same for all look-ups of some documents. -/
theorem exists_holds {ds : List Document} (h : fs.ReadsAlike (s.ruleFilesFor fs ds)) :
    ∃ disk, ∀ d ∈ ds, Cascade.Holds fs disk (s.candidates fs d) := by
  obtain ⟨disk, hd⟩ := Cascade.exists_holds h
  exact ⟨disk, fun d hmem => hd.subset fun dir hdir => List.mem_flatMap.mpr ⟨d, hmem, hdir⟩⟩

/-- **Isolation.**  When the rule files above the documents of a batch are read alike in every spelling that the batch
has of them, the batch reports on every document as it is validated alone from the same session, whatever else is in
the batch; the failures are those of the documents that fail; only the cache of the session changes, and to the same
one for every order of the documents. -/
theorem validateBatch_isolated (s : Session) (ds : List Document) (hfs : fs.ReadsAlike (s.ruleFilesFor fs ds)) :
    let report := (s.validateBatch fs ds).value.1
    let after := (s.validateBatch fs ds).value.2
    report.documents = ds.map (fun d => ⟨d.path, match (s.validate fs d).value.1 with
      | .ok diagnostics => diagnostics
      | .error _ => []⟩) ∧
    report.failures = ds.filterMap (fun d => match (s.validate fs d).value.1 with
      | .ok _ => none
      | .error failure => some failure) ∧
    (after.settings = s.settings ∧ after.engine = s.engine ∧ after.documents = s.documents ∧ after.maker = s.maker) ∧
    (after.cascade.workingDir = s.cascade.workingDir ∧
      after.cascade.editorOverride = s.cascade.editorOverride) ∧
    ∀ ds', ds.Perm ds' → (s.validateBatch fs ds').value.2.cascade.cache = after.cascade.cache := by
  obtain ⟨disk, hd⟩ := exists_holds hfs
  have hkeeps := validateEach_keeps fs s ds
  have hremembers := validateEach_remembers hd
  simp only [value_validateBatch, BatchReport.ofOutcomes, value_validateEach hd]
  refine ⟨?_, ?_, ⟨hkeeps.settings, hkeeps.engine, hkeeps.documents, hkeeps.maker⟩,
    ⟨hremembers.workingDir, hremembers.editorOverride⟩, fun ds' h => cache_validateEach_perm h hd⟩
  · rw [List.map_map]
    rfl
  · rw [List.filterMap_map]
    rfl

/-- One rule file makes no validator, the other one is not seen yet. -/
def batchTree : DirectoryTree :=
  ((DirectoryTree.new []).addFile ⟨"bad/.htmlhintrc"⟩ "\x7b\"max-length\": \x7b\"max\": 0\x7d\x7d").addFile
    ⟨"stale/.htmlhintrc"⟩ "\x7b\"tags-check\": false\x7d"

/-- A session that took the second directory to have no rule file. -/
def staleSession : Session :=
  let s := new .defaults (some ⟨"/"⟩)
  { s with cascade := s.cascade.remember ⟨"/stale"⟩ .missing }

def imageDocument (path : String) : Document :=
  ⟨⟨path⟩, "<img src=\"a.png\">", [.openTag ((OpenTag.new "img" 1 1).withAttr "src" "a.png")], 0⟩

/-- The directories of the documents are spelled with doubled separators and without. -/
theorem validateBatch_isolated_staleSession :
    let batch := [imageDocument "/bad/a.isml", imageDocument "/stale//b.isml", imageDocument "//bad/./c.isml"]
    let report := (staleSession.validateBatch batchTree.fileSystem batch).value.1
    batchTree.fileSystem.ReadsAlike (staleSession.ruleFilesFor batchTree.fileSystem batch) ∧
    report.documents.map (fun d => (d.path.text, d.diagnostics.length)) =
      [("/bad/a.isml", 0), ("/stale//b.isml", 1), ("//bad/./c.isml", 0)] ∧
    report.failures.map (·.path.text) = ["/bad/a.isml", "//bad/./c.isml"] := by
  intro batch report
  have hfs : batchTree.fileSystem.ReadsAlike (staleSession.ruleFilesFor batchTree.fileSystem batch) := by
    unfold FileSystem.ReadsAlike
    decide +kernel
  obtain ⟨hdocs, hfails, -⟩ := validateBatch_isolated staleSession batch hfs
  refine ⟨hfs, ?_, ?_⟩
  · show (staleSession.validateBatch batchTree.fileSystem batch).value.1.documents.map _ = _
    rw [hdocs]
    decide +kernel
  · show (staleSession.validateBatch batchTree.fileSystem batch).value.1.failures.map _ = _
    rw [hfails]
    decide +kernel

end TagLint.Session

import Mathlib.Data.List.Induction
import TagLint.Proofs.CascadeView

/-!
# Coherence — the cache of a cascade against the files it stands for

A history is any sequence of look-ups, notifications, changes of the editor's rules and changes of files.  A
directory is stale after it (`Stale`) if its rule file changed and was not named since.

* `coherent_run`: of a directory that is not stale the cascade sees what is on disk, after every history.
* `not_stale_of_announced`: when every change is announced in time, no directory is stale at a look-up.
* `resolve_coherent`: so every look-up gives what a new cascade gives, the rules of the nearest rule file.
-/

namespace TagLint

/-! ## Histories -/

/-- The configuration in the rule file of a directory, if it exists and parses. -/
def MemoryFiles.ruleAt (files : MemoryFiles) (dir : List Component) : Option RuleConfig :=
  (files.get? (dir ++ [.name ruleFileName])).bind fun text => (RuleConfig.parse text).toOption

namespace Cascade

/-- What can happen to a cascade and to the files that it reads. -/
inductive Step
  | resolve (p : Path)
  | findOverride (p : Path)
  | invalidate (p : Path)
  | didChangeFiles (ps : List Path)
  | setEditorOverride (rules : RuleConfig)
  | addFile (p : Path) (text : String)
  | removeFile (p : Path)

/-- A cascade over files in memory. -/
structure Site where
  files : MemoryFiles
  cascade : Cascade

namespace Site

/-- Nothing is known yet. -/
def new (wd : Path) (files : MemoryFiles) : Site := ⟨files, Cascade.new (some wd)⟩

def step (site : Site) : Step → Site
  | .resolve p => { site with cascade := (site.cascade.resolve site.files.fileSystem p).value.2 }
  | .findOverride p => { site with cascade := (site.cascade.findOverride site.files.fileSystem p).value.2 }
  | .invalidate p => { site with cascade := (site.cascade.invalidate p).value }
  | .didChangeFiles ps => { site with cascade := (site.cascade.didChangeFiles ps).value }
  | .setEditorOverride rules => { site with cascade := site.cascade.setEditorOverride rules }
  | .addFile p text => { site with files := site.files.addFile p text }
  | .removeFile p => { site with files := site.files.removeFile p }

def run (site : Site) (history : List Step) : Site := history.foldl step site

/-- The rules that are in force for a path. -/
def rules (site : Site) (p : Path) : RuleConfig := (site.cascade.resolve site.files.fileSystem p).value.1

theorem run_concat (site : Site) (history : List Step) (s : Step) :
    site.run (history ++ [s]) = (site.run history).step s := by
  simp [run, List.foldl_append]

end Site

namespace Step

/-- The files after a step: look-ups and notifications leave them alone. -/
def filesAfter (files : MemoryFiles) : Step → MemoryFiles
  | .addFile p text => files.addFile p text
  | .removeFile p => files.removeFile p
  | _ => files

/-- The editor's rules after a step. -/
def overrideAfter (rules : RuleConfig) : Step → RuleConfig
  | .setEditorOverride new => new
  | _ => rules

def looksUp : Step → Bool
  | .resolve _ | .findOverride _ => true
  | _ => false

/-- The paths of a notification. -/
def notices : Step → List Path
  | .invalidate p => [p]
  | .didChangeFiles ps => ps
  | _ => []

/-- The file that a step writes or removes. -/
def changed? : Step → Option Path
  | .addFile f _ | .removeFile f => some f
  | _ => none

/-- Whether a notification names a file, by its absolute path or by one from the working directory. -/
def names (wd f : Path) (s : Step) : Bool := s.notices.any fun p => (wd.join p).same f

end Step

/-- The files after a history. -/
def filesAfter (files : MemoryFiles) (history : List Step) : MemoryFiles := history.foldl Step.filesAfter files

/-- The editor's rules after a history: those that were set last. -/
def overrideAfter (history : List Step) : RuleConfig := history.foldl Step.overrideAfter .empty

/-- Whether a file is a rule file with an absolute path. -/
def isRuleFile (f : Path) : Bool := f.isAbsolute && f.fileName? == some ruleFileName

/-- Whether a notification names a file before rules are looked up. -/
def namedInTime (wd f : Path) : List Step → Bool
  | [] => true
  | s :: rest => s.names wd f || (!s.looksUp && namedInTime wd f rest)

/-- Whether every change of a rule file is announced before rules are looked up. -/
def announced (wd : Path) : List Step → Bool
  | [] => true
  | s :: rest => (s.changed?.all fun f => !isRuleFile f || namedInTime wd f rest) && announced wd rest

/-- The rules in force for a path, from the files alone: the editor's, or else those of the nearest directory at or
above the path whose rule file exists and parses. -/
def rulesFrom (wd : Path) (files : MemoryFiles) (override : RuleConfig) (p : Path) : RuleConfig :=
  if override.isEmpty then
    let q := wd.join p
    let start := if files.isDirectory q then q.components else q.components.dropLast
    match (Path.atOrAbove start).findSome? files.ruleAt with
    | some found => RuleConfig.defaults.overlay found
    | none => RuleConfig.defaults
  else RuleConfig.defaults.overlay override

/-! ## Stale directories -/

/-- The rule file of a directory changed, and no notification named it since. -/
def Stale (wd : Path) (history : List Step) (dir : List Component) : Prop :=
  ∃ before s after f, history = before ++ s :: after ∧ s.changed? = some f ∧
    f.components = dir ++ [.name ruleFileName] ∧ ∀ n ∈ after, n.names wd f = false

theorem Step.names_iff {wd f : Path} {s : Step} :
    s.names wd f = true ↔ ∃ p ∈ s.notices, (wd.join p).components = f.components := by
  simp [names, Path.same]

/-- A directory that is not stale after a step was not changed by it, and was named by it if it was stale before. -/
theorem of_not_stale_concat {wd : Path} {history : List Step} {s : Step} {dir : List Component}
    (h : ¬ Stale wd (history ++ [s]) dir) :
    (∀ f, s.changed? = some f → f.components ≠ dir ++ [.name ruleFileName]) ∧
    (Stale wd history dir → ∃ p ∈ s.notices, (wd.join p).components = dir ++ [.name ruleFileName]) := by
  constructor
  · intro f hf hcomps
    exact h ⟨history, s, [], f, rfl, hf, hcomps, by simp⟩
  · rintro ⟨before, c, after, f, rfl, hf, hcomps, hafter⟩
    by_cases hs : s.names wd f = true
    · obtain ⟨p, hp, heq⟩ := Step.names_iff.mp hs
      exact ⟨p, hp, heq.trans hcomps⟩
    · refine absurd ⟨before, c, after ++ [s], f, by simp, hf, hcomps, fun n hn => ?_⟩ h
      rcases List.mem_append.mp hn with hn | hn
      · exact hafter n hn
      · rw [List.mem_singleton.mp hn]
        exact Bool.eq_false_of_not_eq_true hs

theorem exists_names_of_namedInTime {wd f : Path} {between after : List Step} {s : Step} (hs : s.looksUp = true)
    (h : namedInTime wd f (between ++ s :: after) = true) : ∃ n ∈ between, n.names wd f = true := by
  induction between with
  | nil =>
    -- a look-up is no notification
    cases s <;> simp_all [namedInTime, Step.looksUp, Step.names, Step.notices]
  | cons n between ih =>
    rw [List.cons_append, namedInTime, Bool.or_eq_true, Bool.and_eq_true] at h
    rcases h with h | ⟨-, h⟩
    · exact ⟨n, List.mem_cons_self, h⟩
    · obtain ⟨m, hm, hnames⟩ := ih h
      exact ⟨m, List.mem_cons_of_mem n hm, hnames⟩

theorem namedInTime_of_announced {wd f : Path} {before after : List Step} {s : Step} (hs : s.changed? = some f)
    (hf : isRuleFile f = true) (h : announced wd (before ++ s :: after) = true) : namedInTime wd f after = true := by
  induction before with
  | nil => simp_all [announced]
  | cons b before ih =>
    rw [List.cons_append, announced, Bool.and_eq_true] at h
    exact ih h.2

/-- When every change is announced in time, no directory is stale at a look-up. -/
theorem not_stale_of_announced {wd : Path} {history future : List Step} {s : Step} {dir : List Component}
    (hs : s.looksUp = true) (hdir : dir.head? = some .root) (h : announced wd (history ++ s :: future) = true) :
    ¬ Stale wd history dir := by
  rintro ⟨before, c, after, f, rfl, hf, hcomps, hafter⟩
  have hrule : isRuleFile f = true := by
    have habs : f.isAbsolute := by
      rw [Path.isAbsolute_iff, hcomps, List.head?_append, hdir]
      rfl
    have hname : f.fileName? = some ruleFileName := by
      rw [Path.fileName?_eq_some_iff, hcomps, List.getLast?_concat]
    simp [isRuleFile, habs, hname]
  rw [List.append_assoc, List.cons_append] at h
  obtain ⟨n, hn, hnames⟩ := exists_names_of_namedInTime hs (namedInTime_of_announced hf hrule h)
  rw [hafter n hn] at hnames
  cases hnames

/-! ## Coherence -/

/-- What is on disk, directory by directory. -/
def diskOf (files : MemoryFiles) (dir : List Component) : CacheEntry := .ofConfig? (files.ruleAt dir)

theorem holds_fileSystem (files : MemoryFiles) (dirs : List Path) : Holds files.fileSystem (diskOf files) dirs := by
  intro dir _
  rw [held, diskOf, MemoryFiles.ruleAt, ← components_ruleFile]
  show CacheEntry.ofConfig? ((files.read (ruleFile dir)).toOption.bind _) = _
  rw [MemoryFiles.toOption_read]

theorem diskOf_congr {files files' : MemoryFiles} {dir : List Component}
    (h : files'.get? (dir ++ [.name ruleFileName]) = files.get? (dir ++ [.name ruleFileName])) :
    diskOf files' dir = diskOf files dir := by
  rw [diskOf, diskOf, MemoryFiles.ruleAt, MemoryFiles.ruleAt, h]

/-- Of a directory that is not stale the cascade sees what is on disk. -/
structure Coherent (wd : Path) (history : List Step) (site : Site) : Prop where
  workingDir : site.cascade.workingDir = some wd
  view : ∀ dir, ¬ Stale wd history dir → site.cascade.view (diskOf site.files) dir = diskOf site.files dir

theorem workingDir_didChangeFiles (c : Cascade) (ps : List Path) :
    (c.didChangeFiles ps).value.workingDir = c.workingDir := by
  induction ps generalizing c with
  | nil => rfl
  | cons p ps ih => exact (ih _).trans (workingDir_invalidate c p)

/-- After notifications the disk is seen in all directories that hold a named rule file. -/
theorem view_didChangeFiles {wd : Path} {disk : List Component → CacheEntry} {dir : List Component} (ps : List Path)
    {c : Cascade} (hwd : c.workingDir = some wd)
    (h : c.view disk dir = disk dir ∨ ∃ p ∈ ps, (wd.join p).components = dir ++ [.name ruleFileName]) :
    (c.didChangeFiles ps).value.view disk dir = disk dir := by
  induction ps generalizing c with
  | nil =>
    rcases h with h | ⟨p, hp, -⟩
    · exact h
    · cases hp
  | cons p ps ih =>
    have hstep := view_invalidate disk c p dir
    refine ih ((workingDir_invalidate c p).trans hwd) ?_
    rw [absolute, hwd] at hstep
    simp only at hstep
    rcases h with h | ⟨q, hq, hcomps⟩
    · left
      rw [hstep, h, ite_self]
    · rcases List.mem_cons.mp hq with rfl | hq
      · left
        have hname : (wd.join q).fileName? = some ruleFileName := by
          rw [Path.fileName?_eq_some_iff, hcomps, List.getLast?_concat]
        rw [hstep, if_pos]
        rw [components_notified hname, hcomps, List.dropLast_concat]
      · exact .inr ⟨q, hq, hcomps⟩

/-- Taking the notices of a step keeps a site coherent. -/
theorem Coherent.notify {wd : Path} {history : List Step} {site : Site} (h : Coherent wd history site) (s : Step) :
    Coherent wd (history ++ [s]) ⟨site.files, (site.cascade.didChangeFiles s.notices).value⟩ where
  workingDir := (workingDir_didChangeFiles _ s.notices).trans h.workingDir
  view dir hdir := by
    obtain ⟨-, hstale⟩ := of_not_stale_concat hdir
    refine view_didChangeFiles s.notices h.workingDir ?_
    by_cases hst : Stale wd history dir
    · exact .inr (hstale hst)
    · exact .inl (h.view dir hst)

/-- A step that gives no notice and leaves the view as it is keeps a site coherent. -/
theorem Coherent.look {wd : Path} {history : List Step} {site : Site} {s : Step} (h : Coherent wd history site)
    {c : Cascade} (hs : s.notices = []) (hwd : c.workingDir = site.cascade.workingDir)
    (hview : c.view (diskOf site.files) = site.cascade.view (diskOf site.files)) :
    Coherent wd (history ++ [s]) ⟨site.files, c⟩ where
  workingDir := hwd.trans h.workingDir
  view dir hdir := by
    obtain ⟨-, hstale⟩ := of_not_stale_concat hdir
    rw [hs] at hstale
    show c.view (diskOf site.files) dir = _
    rw [hview]
    exact h.view dir fun hst => by simpa using hstale hst

/-- A change of a file keeps a site coherent: only the directory of that file may become stale. -/
theorem Coherent.change {wd : Path} {history : List Step} {site : Site} {s : Step} (h : Coherent wd history site)
    {f : Path} {files : MemoryFiles} (hs : s.changed? = some f) (hn : s.notices = [])
    (hget : ∀ ks, ks ≠ f.components → files.get? ks = site.files.get? ks) :
    Coherent wd (history ++ [s]) ⟨files, site.cascade⟩ where
  workingDir := h.workingDir
  view dir hdir := by
    obtain ⟨hother, hstale⟩ := of_not_stale_concat hdir
    rw [hn] at hstale
    have hdisk : diskOf files dir = diskOf site.files dir := diskOf_congr (hget _ (hother f hs).symm)
    have hold := h.view dir fun hst => by simpa using hstale hst
    show site.cascade.view (diskOf files) dir = diskOf files dir
    rw [Cascade.view] at hold ⊢
    rw [hdisk]
    exact hold

theorem coherent_step {wd : Path} {history : List Step} {site : Site} (h : Coherent wd history site) (s : Step) :
    Coherent wd (history ++ [s]) (site.step s) := by
  have hdisk := fun p => holds_fileSystem site.files (site.cascade.candidates site.files.fileSystem p)
  cases s with
  | resolve p =>
    have hrem := resolve_remembers (hdisk p)
    exact h.look rfl hrem.workingDir hrem.view_eq
  | findOverride p =>
    have hrem := findOverride_remembers (hdisk p)
    exact h.look rfl hrem.workingDir hrem.view_eq
  | invalidate p => exact h.notify (.invalidate p)
  | didChangeFiles ps => exact h.notify (.didChangeFiles ps)
  | setEditorOverride rules => exact h.look rfl rfl rfl
  | addFile p text =>
    refine h.change rfl rfl fun ks hks => ?_
    show (site.files.insert p.components text).get? ks = _
    rw [SortedMap.get?_insert, if_neg hks]
  | removeFile p =>
    refine h.change rfl rfl fun ks hks => ?_
    show (site.files.erase p.components).get? ks = _
    rw [SortedMap.get?_erase, if_neg hks]

theorem coherent_run (wd : Path) (files : MemoryFiles) (history : List Step) :
    Coherent wd history ((Site.new wd files).run history) := by
  induction history using List.reverseRecOn with
  | nil => exact ⟨rfl, fun dir _ => rfl⟩
  | append_singleton history s ih =>
    rw [Site.run_concat]
    exact coherent_step ih s

/-! ## Look-ups in a coherent history -/

theorem files_run (site : Site) (history : List Step) :
    (site.run history).files = filesAfter site.files history := by
  induction history using List.reverseRecOn with
  | nil => rfl
  | append_singleton history s ih =>
    rw [Site.run_concat, filesAfter, List.foldl_concat, ← filesAfter, ← ih]
    cases s <;> rfl

theorem editorOverride_didChangeFiles (c : Cascade) (ps : List Path) :
    (c.didChangeFiles ps).value.editorOverride = c.editorOverride := by
  induction ps generalizing c with
  | nil => rfl
  | cons p ps ih => exact (ih _).trans (editorOverride_invalidate c p)

theorem editorOverride_run (wd : Path) (files : MemoryFiles) (history : List Step) :
    ((Site.new wd files).run history).cascade.editorOverride = overrideAfter history := by
  induction history using List.reverseRecOn with
  | nil => rfl
  | append_singleton history s ih =>
    rw [Site.run_concat, overrideAfter, List.foldl_concat, ← overrideAfter, ← ih]
    set site := (Site.new wd files).run history
    cases s with
    | resolve p => exact (resolve_remembers (holds_fileSystem site.files _)).editorOverride
    | findOverride p => exact (findOverride_remembers (holds_fileSystem site.files _)).editorOverride
    | invalidate p => exact editorOverride_invalidate site.cascade p
    | didChangeFiles ps => exact editorOverride_didChangeFiles site.cascade ps
    | setEditorOverride rules => rfl
    | addFile p text => rfl
    | removeFile p => rfl

/-- A cascade that sees what is on disk at and above a path resolves it from the files alone. -/
theorem value_resolve_of_view {wd : Path} (hwd : wd.isAbsolute) (files : MemoryFiles) {c : Cascade}
    (hc : c.workingDir = some wd) (p : Path)
    (hview : ∀ dir, dir.head? = some .root → c.view (diskOf files) dir = diskOf files dir) :
    (c.resolve files.fileSystem p).value.1 = rulesFrom wd files c.editorOverride p := by
  rw [value_resolve (holds_fileSystem files _), rulesFrom, map_components_candidates hwd hc]
  by_cases hempty : c.editorOverride.isEmpty
  · have hroot := Path.isAbsolute_iff.mp (Path.isAbsolute_join hwd p)
    rw [if_pos hempty, if_pos hempty]
    show rulesOver _ = rulesOver ((Path.atOrAbove (if files.isDirectory (wd.join p) then (wd.join p).components
      else (wd.join p).components.dropLast)).findSome? files.ruleAt)
    congr 1
    refine findSome?_congr fun dir hdir => ?_
    have hhead : dir.head? = some .root := by
      rw [← hroot]
      split_ifs at hdir
      · exact Path.head?_of_mem_atOrAbove hdir
      · -- the root alone has nothing above it
        obtain ⟨hne, hpre⟩ := Path.mem_atOrAbove.mp hdir
        exact Path.head?_of_mem_atOrAbove (Path.mem_atOrAbove.mpr ⟨hne, hpre.trans (List.dropLast_prefix _)⟩)
    rw [hview dir hhead, diskOf, CacheEntry.config?_ofConfig?]
  · rw [if_neg hempty, if_neg hempty]

/-- **Coherence.**  When every change of a rule file is announced before rules are looked up again, the rules that
are in force for a path are those that a new cascade with the same working directory and editor's rules finds, and
they follow from the files alone. -/
theorem resolve_coherent {wd : Path} (hwd : wd.isAbsolute) (files : MemoryFiles) (past future : List Step) (p : Path)
    (h : announced wd (past ++ .resolve p :: future)) :
    let rules := ((Site.new wd files).run past).rules p
    let current := filesAfter files past
    let editors := overrideAfter past
    rules = (((Cascade.new (some wd)).setEditorOverride editors).resolve current.fileSystem p).value.1 ∧
    rules = rulesFrom wd current editors p := by
  have hcoh := coherent_run wd files past
  have hfiles : ((Site.new wd files).run past).files = filesAfter files past := files_run _ past
  have hov := editorOverride_run wd files past
  set site := (Site.new wd files).run past
  have hold : site.rules p = rulesFrom wd (filesAfter files past) (overrideAfter past) p := by
    rw [← hfiles, ← hov]
    exact value_resolve_of_view hwd site.files hcoh.workingDir p fun dir hdir =>
      hcoh.view dir (not_stale_of_announced rfl hdir h)
  have hnew : (((Cascade.new (some wd)).setEditorOverride (overrideAfter past)).resolve
      (filesAfter files past).fileSystem p).value.1 = rulesFrom wd (filesAfter files past) (overrideAfter past) p :=
    value_resolve_of_view hwd _ rfl p fun dir _ => rfl
  exact ⟨hold.trans hnew.symm, hold⟩

/-- A template below a directory with a rule file. -/
def sampleFiles : MemoryFiles :=
  .ofList [(Path.components ⟨"/p/q/page.isml"⟩, ""), (Path.components ⟨"/p/.htmlhintrc"⟩, "\x7b\"max-length\": 80\x7d")]

/-- A nearer rule file comes and goes, the first time behind the editor's rules, and the farther one is rewritten. -/
def sampleHistory : List Step :=
  [.resolve ⟨"/p/q/page.isml"⟩, .setEditorOverride (.ofList [("max-length", .bool true)]),
   .addFile ⟨"/p/q/.htmlhintrc"⟩ "\x7b not json", .invalidate ⟨"q/.htmlhintrc"⟩, .setEditorOverride .empty,
   .findOverride ⟨"/p/q/page.isml"⟩, .removeFile ⟨"/p/q/.htmlhintrc"⟩,
   .addFile ⟨"/p/.htmlhintrc"⟩ "\x7b\"tags-check\": false\x7d",
   .didChangeFiles [⟨"/p//q/./.htmlhintrc"⟩, ⟨".htmlhintrc"⟩]]

theorem resolve_coherent_sampleHistory :
    announced ⟨"/p"⟩ (sampleHistory ++ [.resolve ⟨"q/page.isml"⟩]) = true ∧
    (((Site.new ⟨"/p"⟩ sampleFiles).run sampleHistory).rules ⟨"q/page.isml"⟩).isEnabled "tags-check" = false := by
  have hwd : (⟨"/p"⟩ : Path).isAbsolute := by decide
  have h : announced ⟨"/p"⟩ (sampleHistory ++ [.resolve ⟨"q/page.isml"⟩]) = true := by decide
  obtain ⟨-, hrules⟩ := resolve_coherent hwd sampleFiles sampleHistory [] ⟨"q/page.isml"⟩ h
  refine ⟨h, ?_⟩
  rw [hrules]
  decide +kernel

end Cascade

end TagLint

import TagLint.Proofs.BatchIsolation
import TagLint.Proofs.CascadeReads

/-!
# Latest settings — a session against one that starts with its settings

* `handle_cases`: a request looks up, takes notices, or puts settings in force.
* `obeys_after`: whatever a session was asked, the rules of the editor are those of the settings in force.
* `settled_after`: when every change of the rule file of a directory has been notified, what is known about the
  directory is what it holds now.  Then the rules for a path are those that a new session finds
  (`value_resolve_of_settled`).
* `handle_disabled`: while the engine is off, validating leaves the session as it is, and finds nothing.

`settings_in_force` puts these together for the sessions that requests lead to, over files that change meanwhile.  A
notification counts for the spelling that it names: `alias_keeps_old_rules` has one that does not reach a look-up
through `..`.
-/

namespace TagLint

namespace Cascade

variable {fs : FileSystem} {c c' c'' : Cascade} {dir : Path}

/-! ## What is known about a directory -/

/-- What is known about a directory is what its rule file holds. -/
def Settled (fs : FileSystem) (dir : Path) (c : Cascade) : Prop :=
  c.entry dir = .unknown ∨ c.entry dir = held fs dir

/-- `c'` is `c` after look-ups: what is known about a directory is as before, or what its rule file held when it was
read, in one of its spellings. -/
structure Learns (fs : FileSystem) (c c' : Cascade) : Prop where
  workingDir : c'.workingDir = c.workingDir
  editorOverride : c'.editorOverride = c.editorOverride
  reads : c.reads ⊆ c'.reads
  entry : ∀ dir, c'.entry dir = c.entry dir ∨
    ∃ dir', dir.components = dir'.components ∧ ruleFile dir' ∈ c'.reads ∧ c'.entry dir = held fs dir'

theorem Learns.refl (fs : FileSystem) (c : Cascade) : Learns fs c c :=
  ⟨rfl, rfl, List.Subset.refl _, fun _ => .inl rfl⟩

theorem Learns.trans (h : Learns fs c c') (h' : Learns fs c' c'') : Learns fs c c'' where
  workingDir := h'.workingDir.trans h.workingDir
  editorOverride := h'.editorOverride.trans h.editorOverride
  reads := List.Subset.trans h.reads h'.reads
  entry dir := by
    rcases h'.entry dir with hlater | hlater
    · rcases h.entry dir with hfirst | ⟨dir', hsame, hread, hfirst⟩
      · exact .inl (hlater.trans hfirst)
      · exact .inr ⟨dir', hsame, h'.reads hread, hlater.trans hfirst⟩
    · exact .inr hlater

theorem Fills.learns {dirs : List Path} (h : Fills fs c dirs c') : Learns fs c c' where
  workingDir := h.workingDir
  editorOverride := h.editorOverride
  reads := by
    rw [h.reads]
    exact List.subset_append_right _ _
  entry dir := by
    by_cases hmem : dir.components ∈ dirs.map Path.components
    · obtain ⟨dir', hdir', hsame⟩ := List.mem_map.mp hmem
      obtain ⟨config?, hheld, hget⟩ := h.filled dir' hdir'
      have hread : ruleFile dir' ∈ c'.reads := by
        rw [h.reads]
        exact List.mem_append_left _ (List.mem_reverse.mpr (List.mem_map_of_mem hdir'))
      refine .inr ⟨dir', hsame.symm, hread, ?_⟩
      rw [Cascade.entry, ← hsame, hget, hheld]
      rfl
    · exact .inl (h.entry_eq hmem)

theorem resolve_learns (fs : FileSystem) (c : Cascade) (p : Path) : Learns fs c (c.resolve fs p).value.2 := by
  rw [state_resolve]
  split_ifs
  · exact (findOverride_fills fs c p).2.learns
  · exact .refl fs c

/-- Over files that are read alike, a look-up leaves what is known, or learns what the rule file holds. -/
theorem Learns.entry_or_held {files : List Path} (h : Learns fs c c') (hfs : fs.ReadsAlike files)
    (hreads : c'.reads ⊆ files) (hdir : ruleFile dir ∈ files) :
    c'.entry dir = c.entry dir ∨ c'.entry dir = held fs dir := by
  rcases h.entry dir with hkept | ⟨dir', hsame, hread, hlearnt⟩
  · exact .inl hkept
  · right
    rw [hlearnt]
    exact (held_congr hfs hdir (hreads hread) hsame).symm

theorem entry_didChangeFiles (c : Cascade) (ps : List Path) (dir : Path) :
    (c.didChangeFiles ps).value.entry dir = c.entry dir ∨ (c.didChangeFiles ps).value.entry dir = .unknown := by
  induction ps generalizing c with
  | nil => exact .inl rfl
  | cons p ps ih =>
    have hfirst := entry_invalidate c p dir
    rcases ih (c.invalidate p).value with h | h
    · rw [hfirst] at h
      split_ifs at h
      · exact .inr h
      · exact .inl h
    · exact .inr h

theorem seen_of_settled (h : Settled fs dir c) : c.seen fs dir = held fs dir := by
  rw [seen]
  split_ifs with hunknown
  · rfl
  · rcases h with h | h
    · rw [h] at hunknown
      exact absurd rfl hunknown
    · exact h

/-- Cascades that know nothing but what is on disk above a path find the same rules for it. -/
theorem value_resolve_of_settled {p : Path} (hwd : c'.workingDir = c.workingDir)
    (hrules : c'.editorOverride = c.editorOverride) (h : ∀ dir ∈ c.candidates fs p, Settled fs dir c)
    (h' : ∀ dir ∈ c.candidates fs p, Settled fs dir c') : (c'.resolve fs p).value.1 = (c.resolve fs p).value.1 := by
  have hfind : (c'.findOverride fs p).value.1 = (c.findOverride fs p).value.1 := by
    rw [(findOverride_fills fs c' p).1, (findOverride_fills fs c p).1, candidates_congr hwd]
    refine findSome?_congr fun dir hdir => ?_
    rw [seen_of_settled (h dir hdir), seen_of_settled (h' dir hdir)]
  rw [value_resolve_eq, value_resolve_eq, hrules, hfind]

end Cascade

namespace Session

open Cascade (Learns Settled held ruleFile)

variable {fs : FileSystem} {s : Session} {dir : Path}

/-! ## Requests -/

/-- What a session can be asked. -/
inductive Request
  | enable
  | disable
  | changeSettings (settings : Settings)
  | didChangeFiles (paths : List Path)
  | resolve (p : Path)
  | check (d : Document)
  | validate (d : Document)
  | validateBatch (ds : List Document)
  | validateOpen
  | openDocument (d : Document)
  | updateDocument (d : Document)
  | closeDocument (p : Path)

namespace Request

def isValidation : Request → Bool
  | .check _ | .validate _ | .validateBatch _ | .validateOpen => true
  | _ => false

def looksUp : Request → Bool
  | .resolve _ => true
  | r => r.isValidation

/-- The paths of a notification. -/
def notices : Request → List Path
  | .didChangeFiles ps => ps
  | _ => []

/-- A notification names the rule file of a directory, seen from a working directory. -/
def Names (wd : Option Path) (dir : Path) (r : Request) : Prop :=
  ∃ p ∈ r.notices, ((Cascade.new wd).absolute p).same (ruleFile dir)

end Request

/-- The session after a request. -/
def handle (fs : FileSystem) (s : Session) : Request → Session
  | .enable => s.enable.value
  | .disable => s.disable.value
  | .changeSettings settings => (s.changeSettings settings).value
  | .didChangeFiles ps => (s.didChangeFiles ps).value
  | .resolve p => (s.resolve fs p).value.2
  | .check d => (s.check fs d).value.2
  | .validate d => (s.validate fs d).value.2
  | .validateBatch ds => (s.validateBatch fs ds).value.2
  | .validateOpen => (s.validateOpen fs).value.2
  | .openDocument d => (s.openDocument d).value
  | .updateDocument d => (s.updateDocument d).value.2
  | .closeDocument p => (s.closeDocument p).value.2

/-- The session after some requests, each with the files as they are when it is made. -/
def after (s : Session) (history : List (FileSystem × Request)) : Session :=
  history.foldl (fun s m => s.handle m.1 m.2) s

theorem after_cons (s : Session) (m : FileSystem × Request) (history : List (FileSystem × Request)) :
    s.after (m :: history) = (s.handle m.1 m.2).after history := rfl

/-- Every change of the rule file of a directory has been notified: what it held at a request is what it holds now, or
a later notification names it. -/
def Announced (wd : Option Path) (now : FileSystem) (dir : Path) : List (FileSystem × Request) → Prop
  | [] => True
  | (past, _) :: rest =>
    (held past dir = held now dir ∨ ∃ m ∈ rest, m.2.Names wd dir) ∧ Announced wd now dir rest

/-- A session can know what the rule files above a path hold now.  Every change of them has been notified, under the
path by which the look-up goes to them; and at no time was one of them, in a spelling in which the session has read it,
read otherwise than in this one. -/
structure Informed (wd : Option Path) (history : List (FileSystem × Request)) (now : FileSystem) (reads : List Path)
    (p : Path) : Prop where
  announced : ∀ dir ∈ (Cascade.new wd).candidates now p, Announced wd now dir history
  alike : ∀ fs ∈ now :: history.map (·.1),
    fs.ReadsAlike (reads ++ ((Cascade.new wd).candidates now p).map ruleFile)

/-! ## One request -/

theorem value_enable (s : Session) : s.enable.value = { s with engine := .enabled } := by
  rw [enable]
  split_ifs <;> rfl

theorem value_disable (s : Session) : s.disable.value = { s with engine := .disabled } := by
  rw [disable]
  split_ifs <;> rfl

theorem value_changeSettings (s : Session) (settings : Settings) : (s.changeSettings settings).value =
    { s with engine := .ofFlag settings.enabled, settings, cascade := s.cascade.setEditorOverride settings.rules } := by
  rw [changeSettings, Logged.value_bind]
  dsimp only
  split_ifs with h
  · rw [value_enable, h]
    rfl
  · rw [value_disable, Bool.eq_false_of_not_eq_true h]
    rfl

theorem validate_learns (fs : FileSystem) (s : Session) (d : Document) :
    Learns fs s.cascade (s.validate fs d).value.2.cascade := by
  rw [state_validate]
  cases s.engine with
  | disabled => exact .refl fs s.cascade
  | enabled => exact Cascade.resolve_learns fs s.cascade d.path

theorem validateEach_learns (fs : FileSystem) (s : Session) (ds : List Document) :
    Learns fs s.cascade (s.validateEach fs ds).value.2.cascade := by
  induction ds generalizing s with
  | nil => exact .refl fs s.cascade
  | cons d ds ih => exact (validate_learns fs s d).trans (ih (s.validate fs d).value.2)

/-- Looking up changes what is known about rule files, and nothing else. -/
theorem handle_learns (fs : FileSystem) (s : Session) {r : Request} (hr : r.looksUp) :
    Keeps s (s.handle fs r) ∧ Learns fs s.cascade (s.handle fs r).cascade := by
  have hbatch : ∀ ds, Keeps s (s.validateBatch fs ds).value.2 ∧
      Learns fs s.cascade (s.validateBatch fs ds).value.2.cascade := fun ds => by
    rw [value_validateBatch]
    exact ⟨validateEach_keeps fs s ds, validateEach_learns fs s ds⟩
  cases r with
  | resolve p => exact ⟨⟨rfl, rfl, rfl, rfl⟩, Cascade.resolve_learns fs s.cascade p⟩
  | check d => exact ⟨validate_keeps fs s d, validate_learns fs s d⟩
  | validate d => exact ⟨validate_keeps fs s d, validate_learns fs s d⟩
  | validateBatch ds => exact hbatch ds
  | validateOpen => exact hbatch _
  | enable | disable | changeSettings | didChangeFiles | openDocument | updateDocument | closeDocument => cases hr

/-- A request looks up, or takes notices if there are any, or puts settings with their rules in force. -/
theorem handle_cases (fs : FileSystem) (s : Session) (r : Request) :
    (Keeps s (s.handle fs r) ∧ Learns fs s.cascade (s.handle fs r).cascade) ∨
      ((s.handle fs r).cascade = (s.cascade.didChangeFiles r.notices).value ∧
        (s.handle fs r).settings = s.settings ∧ (s.handle fs r).maker = s.maker) ∨
      (s.handle fs r).cascade = s.cascade.setEditorOverride (s.handle fs r).settings.rules ∧
        (s.handle fs r).maker = s.maker := by
  cases r with
  | resolve | check | validate | validateBatch | validateOpen => exact .inl (handle_learns fs s rfl)
  | enable =>
    rw [handle, value_enable]
    exact .inr (.inl ⟨rfl, rfl, rfl⟩)
  | disable =>
    rw [handle, value_disable]
    exact .inr (.inl ⟨rfl, rfl, rfl⟩)
  | changeSettings settings =>
    rw [handle, value_changeSettings]
    exact .inr (.inr ⟨rfl, rfl⟩)
  | didChangeFiles | openDocument | updateDocument | closeDocument => exact .inr (.inl ⟨rfl, rfl, rfl⟩)

/-- What requests leave alone in a session, and the rules of the editor, which follow the settings. -/
structure Obeys (wd : Option Path) (maker : ValidatorMaker) (s : Session) : Prop where
  workingDir : s.cascade.workingDir = wd
  maker : s.maker = maker
  rules : s.cascade.editorOverride = s.settings.rules

theorem obeys_handle {wd : Option Path} {maker : ValidatorMaker} (h : Obeys wd maker s) (fs : FileSystem)
    (r : Request) : Obeys wd maker (s.handle fs r) := by
  obtain ⟨hkeeps, hlearns⟩ | ⟨hcascade, hsettings, hmaker⟩ | ⟨hcascade, hmaker⟩ := handle_cases fs s r
  · exact ⟨hlearns.workingDir.trans h.workingDir, hkeeps.maker.trans h.maker,
      (hlearns.editorOverride.trans h.rules).trans (congrArg Settings.rules hkeeps.settings).symm⟩
  · refine ⟨?_, hmaker.trans h.maker, ?_⟩
    · rw [hcascade, Cascade.workingDir_didChangeFiles, h.workingDir]
    · rw [hcascade, hsettings, Cascade.editorOverride_didChangeFiles, h.rules]
  · refine ⟨?_, hmaker.trans h.maker, ?_⟩
    · rw [hcascade]
      exact h.workingDir
    · rw [hcascade]
      rfl

/-- What has been read stays on the account. -/
theorem reads_handle (fs : FileSystem) (s : Session) (r : Request) :
    s.cascade.reads ⊆ (s.handle fs r).cascade.reads := by
  obtain ⟨-, hlearns⟩ | ⟨hcascade, -⟩ | ⟨hcascade, -⟩ := handle_cases fs s r
  · exact hlearns.reads
  · rw [hcascade, Cascade.reads_didChangeFiles]
    exact List.Subset.refl _
  · rw [hcascade]
    exact List.Subset.refl _

/-- A request leaves what is known about a directory, forgets it, or learns what the rule file holds. -/
theorem entry_handle {files : List Path} {r : Request} (hfs : fs.ReadsAlike files)
    (hreads : (s.handle fs r).cascade.reads ⊆ files) (hdir : ruleFile dir ∈ files) :
    (s.handle fs r).cascade.entry dir = s.cascade.entry dir ∨ Settled fs dir (s.handle fs r).cascade := by
  obtain ⟨-, hlearns⟩ | ⟨hcascade, -⟩ | ⟨hcascade, -⟩ := handle_cases fs s r
  · exact (hlearns.entry_or_held hfs hreads hdir).imp_right .inr
  · rw [hcascade]
    exact (Cascade.entry_didChangeFiles s.cascade r.notices dir).imp_right .inl
  · rw [hcascade]
    exact .inl rfl

/-- A notification of its rule file makes a directory unknown. -/
theorem entry_handle_of_names {wd : Option Path} (hwd : s.cascade.workingDir = wd) {r : Request}
    (h : r.Names wd dir) (fs : FileSystem) : (s.handle fs r).cascade.entry dir = .unknown := by
  obtain ⟨p, hp, hsame⟩ := h
  cases r with
  | didChangeFiles ps =>
    have habs : s.cascade.absolute p = (Cascade.new wd).absolute p := by
      rw [Cascade.absolute, hwd]
      rfl
    have hcomps : (s.cascade.absolute p).components = dir.components ++ [.name ruleFileName] := by
      rw [habs, beq_iff_eq.mp hsame, Cascade.components_ruleFile]
    have hname : (s.cascade.absolute p).fileName? = some ruleFileName := by
      rw [Path.fileName?_eq_some_iff, hcomps, List.getLast?_concat]
    refine Cascade.entry_didChangeFiles_of_mem hp ?_
    rw [Cascade.components_notified hname, hcomps, List.dropLast_concat]
  | _ => cases hp

/-! ## Histories -/

theorem obeys_after {wd : Option Path} {maker : ValidatorMaker} (h : Obeys wd maker s)
    (history : List (FileSystem × Request)) : Obeys wd maker (s.after history) := by
  induction history generalizing s with
  | nil => exact h
  | cons m history ih => exact ih (obeys_handle h m.1 m.2)

theorem reads_after (s : Session) (history : List (FileSystem × Request)) :
    s.cascade.reads ⊆ (s.after history).cascade.reads := by
  induction history generalizing s with
  | nil => exact List.Subset.refl _
  | cons m history ih => exact List.Subset.trans (reads_handle m.1 s m.2) (ih (s.handle m.1 m.2))

/-- When every change has been notified, what is known about a directory is what its rule file holds now. -/
theorem settled_after {wd : Option Path} {maker : ValidatorMaker} {now : FileSystem}
    {history : List (FileSystem × Request)} {files : List Path} (hobeys : Obeys wd maker s)
    (halike : ∀ m ∈ history, m.1.ReadsAlike files) (hreads : (s.after history).cascade.reads ⊆ files)
    (hdir : ruleFile dir ∈ files) (hann : Announced wd now dir history)
    (h : Settled now dir s.cascade ∨ ∃ m ∈ history, m.2.Names wd dir) :
    Settled now dir (s.after history).cascade := by
  induction history generalizing s with
  | nil =>
    rcases h with h | ⟨m, hm, -⟩
    · exact h
    · cases hm
  | cons m history ih =>
    obtain ⟨hpast, hrest⟩ := hann
    obtain ⟨hm, hhistory⟩ := List.forall_mem_cons.mp halike
    refine ih (obeys_handle hobeys m.1 m.2) hhistory hreads hrest ?_
    by_cases hnames : m.2.Names wd dir
    · exact .inl (.inl (entry_handle_of_names hobeys.workingDir hnames m.1))
    · have hkeep : Settled now dir s.cascade ∨ ∃ m ∈ history, m.2.Names wd dir := by
        rcases h with h | ⟨m', hm', hnames'⟩
        · exact .inl h
        · rcases List.mem_cons.mp hm' with rfl | hm'
          · exact absurd hnames' hnames
          · exact .inr ⟨m', hm', hnames'⟩
      have hread : (s.handle m.1 m.2).cascade.reads ⊆ files := List.Subset.trans (reads_after _ history) hreads
      rcases entry_handle hm hread hdir with hentry | hentry
      · rw [Settled, hentry]
        exact hkeep
      · rcases hpast with hpast | hlater
        · left
          rw [Settled, hpast] at hentry
          exact hentry
        · exact .inr hlater

theorem after_learns (now : FileSystem) (s : Session) {lookUps : List Request} (h : ∀ r ∈ lookUps, r.looksUp) :
    Keeps s (s.after (lookUps.map fun r => (now, r))) ∧
      Learns now s.cascade (s.after (lookUps.map fun r => (now, r))).cascade := by
  induction lookUps generalizing s with
  | nil => exact ⟨.refl s, .refl now s.cascade⟩
  | cons r lookUps ih =>
    obtain ⟨hr, hrest⟩ := List.forall_mem_cons.mp h
    obtain ⟨hkeeps, hlearns⟩ := handle_learns now s hr
    obtain ⟨hkeeps', hlearns'⟩ := ih (s.handle now r) hrest
    exact ⟨hkeeps.trans hkeeps', hlearns.trans hlearns'⟩

/-! ## Validation while the engine is off -/

theorem value_check (fs : FileSystem) (s : Session) (d : Document) :
    (s.check fs d).value.1 =
      match s.engine with
      | .disabled => .ok []
      | .enabled => (run s.maker (s.cascade.resolve fs d.path).value.1 d).value := by
  rw [check]
  cases s.engine <;> rfl

section Disabled

variable (fs : FileSystem) (hoff : s.engine = .disabled)

include hoff

theorem check_disabled (d : Document) : (s.check fs d).value = (.ok [], s) := by
  rw [check, hoff]
  rfl

theorem validate_disabled (d : Document) : (s.validate fs d).value = (.ok [], s) := by
  rw [validate, Logged.value_bind, check_disabled fs hoff]
  rfl

theorem validateEach_disabled (ds : List Document) :
    (s.validateEach fs ds).value = (ds.map fun d => ⟨d, .ok []⟩, s) := by
  induction ds with
  | nil => rfl
  | cons d ds ih =>
    rw [validateEach, Logged.value_bind, validate_disabled fs hoff]
    show (_ :: (s.validateEach fs ds).value.1, (s.validateEach fs ds).value.2) = _
    rw [ih]
    rfl

/-- A batch has an entry for every document, without diagnostics, and no failures. -/
theorem validateBatch_disabled (ds : List Document) :
    (s.validateBatch fs ds).value = (⟨ds.map fun d => ⟨d.path, []⟩, []⟩, s) := by
  rw [value_validateBatch, validateEach_disabled fs hoff, BatchReport.ofOutcomes, List.map_map, List.filterMap_map]
  have hnone : ds.filterMap ((fun o : Outcome => o.failure?) ∘ fun d => ⟨d, .ok []⟩) = [] :=
    List.filterMap_eq_nil_iff.mpr fun d _ => rfl
  rw [hnone]
  rfl

theorem handle_disabled {r : Request} (hr : r.isValidation) : s.handle fs r = s := by
  cases r with
  | check d => exact congrArg Prod.snd (check_disabled fs hoff d)
  | validate d => exact congrArg Prod.snd (validate_disabled fs hoff d)
  | validateBatch ds => exact congrArg Prod.snd (validateBatch_disabled fs hoff ds)
  | validateOpen => exact congrArg Prod.snd (validateBatch_disabled fs hoff _)
  | _ => cases hr

end Disabled

theorem after_disabled (hoff : s.engine = .disabled) {calls : List (FileSystem × Request)}
    (h : ∀ m ∈ calls, m.2.isValidation) : s.after calls = s := by
  induction calls with
  | nil => rfl
  | cons m calls ih =>
    obtain ⟨hm, hrest⟩ := List.forall_mem_cons.mp h
    rw [after_cons, handle_disabled m.1 hoff hm, ih hrest]

/-- Turning the engine off and on again is invisible when nothing but validations stands between. -/
theorem enable_after_disable (hon : s.engine = .enabled) {calls : List (FileSystem × Request)}
    (h : ∀ m ∈ calls, m.2.isValidation) : (s.disable.value.after calls).enable.value = s := by
  have hoff : s.disable.value.engine = .disabled := by rw [value_disable]
  rw [after_disabled hoff h, value_enable, value_disable, ← hon]

/-! ## Against a new session -/

theorem obeys_new (settings : Settings) (wd : Option Path) (maker : ValidatorMaker) :
    Obeys wd maker ((new settings wd).withMaker maker) := ⟨rfl, rfl, rfl⟩

theorem cascade_changeSettings (s : Session) (settings : Settings) :
    (s.changeSettings settings).value.cascade = s.cascade.setEditorOverride settings.rules := by
  rw [value_changeSettings]

/-- After a change of the settings, a session that knows nothing but what is on disk above a path finds the rules for
it that a new one finds. -/
theorem resolve_eq_new {wd : Option Path} {maker : ValidatorMaker} {now : FileSystem} {settings : Settings}
    {lookUps : List Request} {p : Path} {files : List Path} (hobeys : Obeys wd maker s)
    (hlook : ∀ r ∈ lookUps, r.looksUp) (hnow : now.ReadsAlike files)
    (hreads : ((s.changeSettings settings).value.after (lookUps.map fun r => (now, r))).cascade.reads ⊆ files)
    (hfiles : ∀ dir ∈ (Cascade.new wd).candidates now p, ruleFile dir ∈ files)
    (hsettled : ∀ dir ∈ (Cascade.new wd).candidates now p, Settled now dir s.cascade) :
    let changed := (s.changeSettings settings).value.after (lookUps.map fun r => (now, r))
    let fresh := (new settings wd).withMaker maker
    (changed.cascade.resolve now p).value.1 = (fresh.cascade.resolve now p).value.1 := by
  intro changed fresh
  obtain ⟨-, hlearns⟩ := after_learns now (s.changeSettings settings).value hlook
  have hwd : changed.cascade.workingDir = wd := by
    rw [hlearns.workingDir, cascade_changeSettings]
    exact hobeys.workingDir
  have hrules : changed.cascade.editorOverride = settings.rules := by
    rw [hlearns.editorOverride, cascade_changeSettings]
    rfl
  have hcand : fresh.cascade.candidates now p = (Cascade.new wd).candidates now p := Cascade.candidates_congr rfl p
  refine Cascade.value_resolve_of_settled hwd hrules (fun _ _ => .inl rfl) fun dir hdir => ?_
  rw [hcand] at hdir
  rcases hlearns.entry_or_held hnow hreads (hfiles dir hdir) with hentry | hentry
  · rw [cascade_changeSettings] at hentry
    rw [Settled, hentry]
    exact hsettled dir hdir
  · exact .inr hentry

/-- **Latest settings.**  Whatever a session was asked, the rules of the editor are those of its settings.  When the
settings change, look-ups and checks answer about a path as in a new session with these settings, if every change of a
rule file above the path has been notified, under the path by which the look-up goes to the file.  While the engine is
off, validating finds nothing and leaves the session as it is; so turning it off and on again around validations is
invisible. -/
theorem settings_in_force (initial : Settings) (wd : Option Path) (maker : ValidatorMaker)
    (history : List (FileSystem × Request)) :
    let s := ((new initial wd).withMaker maker).after history
    s.cascade.editorOverride = s.settings.rules ∧
    (∀ (now : FileSystem) (settings : Settings) (lookUps : List Request), (∀ r ∈ lookUps, r.looksUp) →
      let changed := (s.changeSettings settings).value.after (lookUps.map fun r => (now, r))
      let fresh := (new settings wd).withMaker maker
      (∀ p, Informed wd history now changed.cascade.reads p →
        (changed.resolve now p).value.1 = (fresh.resolve now p).value.1) ∧
      ∀ d, Informed wd history now changed.cascade.reads d.path →
        (changed.check now d).value.1 = (fresh.check now d).value.1) ∧
    (s.engine = .disabled → ∀ fs : FileSystem,
      (∀ d, (s.check fs d).value = (.ok [], s) ∧ (s.validate fs d).value = (.ok [], s)) ∧
      ∀ ds, (s.validateBatch fs ds).value = (⟨ds.map fun d => ⟨d.path, []⟩, []⟩, s)) ∧
    (s.engine = .enabled → ∀ calls : List (FileSystem × Request), (∀ m ∈ calls, m.2.isValidation) →
      (s.disable.value.after calls).enable.value = s) := by
  intro s
  have hobeys : Obeys wd maker s := obeys_after (obeys_new initial wd maker) history
  refine ⟨hobeys.rules, fun now settings lookUps hlook => ?_, fun hoff fs => ?_, fun hon calls hcalls => ?_⟩
  · intro changed fresh
    obtain ⟨hkeeps, hlearns⟩ := after_learns now (s.changeSettings settings).value hlook
    have hreads : s.cascade.reads ⊆ changed.cascade.reads := by
      have hsub := hlearns.reads
      rw [cascade_changeSettings] at hsub
      exact hsub
    have hresolve : ∀ p, Informed wd history now changed.cascade.reads p →
        (changed.cascade.resolve now p).value.1 = (fresh.cascade.resolve now p).value.1 := by
      intro p hinformed
      obtain ⟨hnow, hpast⟩ := List.forall_mem_cons.mp hinformed.alike
      have hall := List.subset_append_left changed.cascade.reads (((Cascade.new wd).candidates now p).map ruleFile)
      have hfiles : ∀ dir ∈ (Cascade.new wd).candidates now p,
          ruleFile dir ∈ changed.cascade.reads ++ ((Cascade.new wd).candidates now p).map ruleFile :=
        fun dir hdir => List.mem_append_right _ (List.mem_map_of_mem hdir)
      refine resolve_eq_new hobeys hlook hnow hall hfiles fun dir hdir => ?_
      exact settled_after (obeys_new initial wd maker) (fun m hm => hpast m.1 (List.mem_map_of_mem hm))
        (List.Subset.trans hreads hall) (hfiles dir hdir) (hinformed.announced dir hdir) (.inl (.inl rfl))
    have hengine : changed.engine = fresh.engine := by
      rw [hkeeps.engine, value_changeSettings]
      rfl
    have hmaker : changed.maker = fresh.maker := by
      rw [hkeeps.maker, value_changeSettings]
      exact hobeys.maker
    refine ⟨hresolve, fun d hinformed => ?_⟩
    rw [value_check, value_check, hengine, hmaker, hresolve d.path hinformed]
  · exact ⟨fun d => ⟨check_disabled fs hoff d, validate_disabled fs hoff d⟩, validateBatch_disabled fs hoff⟩
  · exact enable_after_disable hon hcalls

/-- A rule file that allows lines of a length. -/
def limitRules (limit : String) : String := "\x7b\"max-length\": " ++ limit ++ "\x7d"

/-- A shop with a rule file, and a directory of it. -/
def shopTree : DirectoryTree :=
  ((DirectoryTree.new []).addFile ⟨"shop/.htmlhintrc"⟩ (limitRules "80")).addFile ⟨"shop/a/part.isml"⟩ ""

/-- The shop after a change of its rule file. -/
def shopTreeNow : DirectoryTree := shopTree.addFile ⟨"shop/.htmlhintrc"⟩ (limitRules "100")

/-- The rule file of the shop changes after a look-up, and is named after the engine was turned off. -/
def shopHistory : List (FileSystem × Request) :=
  [(shopTree.fileSystem, .resolve ⟨"page.isml"⟩), (shopTreeNow.fileSystem, .disable),
    (shopTreeNow.fileSystem, .didChangeFiles [⟨"other/.htmlhintrc"⟩, ⟨".htmlhintrc"⟩])]

/-- The session of the shop after the first requests. -/
def shopSession (count : ℕ) : Session :=
  ((new .defaults (some ⟨"/shop"⟩)).withMaker .standard).after (shopHistory.take count)

/-- The session of the shop with new settings, after a check. -/
def changedShop : Session :=
  ((shopSession 3).changeSettings .defaults).value.after
    ([.check (imageDocument "page.isml")].map fun r => (shopTreeNow.fileSystem, r))

theorem informed_shopHistory :
    Informed (some ⟨"/shop"⟩) (shopHistory.take 3) shopTreeNow.fileSystem changedShop.cascade.reads ⟨"page.isml"⟩ := by
  have hcand : (Cascade.new (some ⟨"/shop"⟩)).candidates shopTreeNow.fileSystem ⟨"page.isml"⟩ =
      [⟨"/shop"⟩, ⟨"/"⟩] := by decide +kernel
  constructor
  · rw [hcand]
    refine List.forall_mem_cons.mpr ⟨⟨.inr ?_, .inl rfl, .inl rfl, trivial⟩, ?_⟩
    · exact ⟨_, List.mem_cons_of_mem _ List.mem_cons_self, ⟨".htmlhintrc"⟩, by simp [Request.notices], by decide +kernel⟩
    · refine List.forall_mem_cons.mpr ⟨⟨.inl ?_, .inl rfl, .inl rfl, trivial⟩, by simp⟩
      -- the root has no rule file, neither then nor now
      have hthen : (shopTree.read (ruleFile ⟨"/"⟩)).toOption = none := by decide +kernel
      have hnow : (shopTreeNow.read (ruleFile ⟨"/"⟩)).toOption = none := by decide +kernel
      show CacheEntry.ofConfig? ((shopTree.read (ruleFile ⟨"/"⟩)).toOption.bind _) =
        CacheEntry.ofConfig? ((shopTreeNow.read (ruleFile ⟨"/"⟩)).toOption.bind _)
      rw [hthen, hnow]
  · rw [hcand]
    unfold FileSystem.ReadsAlike
    decide +kernel

theorem settings_in_force_shop :
    Informed (some ⟨"/shop"⟩) (shopHistory.take 3) shopTreeNow.fileSystem changedShop.cascade.reads ⟨"page.isml"⟩ ∧
    (∀ r ∈ [Request.check (imageDocument "page.isml")], r.looksUp) ∧
    Cascade.limitOf (some (changedShop.resolve shopTreeNow.fileSystem ⟨"page.isml"⟩).value.1) = some 100 ∧
    (shopSession 3).engine = .disabled ∧
    ((shopSession 3).check shopTreeNow.fileSystem (imageDocument "page.isml")).value = (.ok [], shopSession 3) ∧
    (shopSession 1).engine = .enabled ∧
    ((shopSession 1).disable.value.after
      [(shopTreeNow.fileSystem, .check (imageDocument "page.isml"))]).enable.value = shopSession 1 := by
  have hlook : ∀ r ∈ [Request.check (imageDocument "page.isml")], r.looksUp := by
    simp [Request.looksUp, Request.isValidation]
  have hcalls : ∀ m ∈ [(shopTreeNow.fileSystem, Request.check (imageDocument "page.isml"))], m.2.isValidation := by
    simp [Request.isValidation]
  have hoff : (shopSession 3).engine = .disabled := by decide +kernel
  have hon : (shopSession 1).engine = .enabled := by decide +kernel
  have hthree := settings_in_force .defaults (some ⟨"/shop"⟩) .standard (shopHistory.take 3)
  have hone := settings_in_force .defaults (some ⟨"/shop"⟩) .standard (shopHistory.take 1)
  rw [← shopSession] at hthree hone
  obtain ⟨-, hfresh, hdisabled, -⟩ := hthree
  obtain ⟨-, -, -, henabled⟩ := hone
  obtain ⟨hresolve, -⟩ := hfresh shopTreeNow.fileSystem .defaults _ hlook
  rw [← changedShop] at hresolve
  refine ⟨informed_shopHistory, hlook, ?_, hoff, ((hdisabled hoff _).1 _).1, hon, henabled hon _ hcalls⟩
  rw [hresolve ⟨"page.isml"⟩ informed_shopHistory]
  decide +kernel

/-- The rule file of the shop is all that changes, and is named.  A look-up through `a/..` has been told what the file
held before, under a directory of another spelling, and keeps to it; a new session reads the file anew. -/
theorem alias_keeps_old_rules :
    let history : List (FileSystem × Request) :=
      [(shopTree.fileSystem, .resolve ⟨"/shop/a/../page.isml"⟩),
        (shopTreeNow.fileSystem, .didChangeFiles [⟨"/shop/.htmlhintrc"⟩])]
    let s := ((new .defaults (some ⟨"/"⟩)).withMaker .standard).after history
    let fresh := (new .defaults (some ⟨"/"⟩)).withMaker .standard
    let now := shopTreeNow.fileSystem
    shopTreeNow.walk ⟨"/shop/.htmlhintrc"⟩ = .ok ["shop", ".htmlhintrc"] ∧
    shopTreeNow.walk ⟨"/shop/a/../.htmlhintrc"⟩ = .ok ["shop", ".htmlhintrc"] ∧
    Cascade.limitOf (some ((s.changeSettings .defaults).value.resolve now ⟨"/shop/a/../page.isml"⟩).value.1) = some 80 ∧
    Cascade.limitOf (some (fresh.resolve now ⟨"/shop/a/../page.isml"⟩).value.1) = some 100 := by
  decide +kernel

end Session

end TagLint

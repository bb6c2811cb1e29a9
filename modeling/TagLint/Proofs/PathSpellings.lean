import TagLint.Proofs.CascadeReads

/-!
# Spellings — paths written in different ways

From an absolute working directory every call makes its path absolute before it asks the cache or the files, so how a
path is written does not show.

* `rooted_afterCall`: the cache knows absolute directories only.
* `call_congr`: a call sees its paths from the working directory.  So a relative path and the joined one are the same
  to it, whatever the files are.
* `Alike.call`: over files that go by components (`SpellingBlind`), two cascades that agree up to the spelling of what
  they read (`Alike`) answer two spellings of a call alike, and go on to agree.

`spelling_immaterial` is what this means for runs of calls.
-/

namespace TagLint

open TagLint.Path

/-- Paths with the same components lead to the same directory, which holds the same rule file. -/
structure FileSystem.SpellingBlind (fs : FileSystem) : Prop where
  isDirectory : ∀ p q : Path, p.components = q.components → fs.isDirectory p = fs.isDirectory q
  ruleFile : ∀ p q : Path, p.components = q.components →
    (fs.read (Cascade.ruleFile p)).toOption = (fs.read (Cascade.ruleFile q)).toOption

theorem MemoryFiles.spellingBlind (files : MemoryFiles) : files.fileSystem.SpellingBlind where
  isDirectory p q h := by
    show files.isDirectory p = files.isDirectory q
    rw [isDirectory, isDirectory, h]
  ruleFile p q h := by
    have hfile : (Cascade.ruleFile p).components = (Cascade.ruleFile q).components := by
      rw [Cascade.components_ruleFile, Cascade.components_ruleFile, h]
    exact files.readsAlike [Cascade.ruleFile p, Cascade.ruleFile q] _ (by simp) _ (by simp) hfile

namespace Cascade

variable {fs : FileSystem} {c c' : Cascade} {wd : Path}

/-! ## Calls -/

/-- What a cascade is asked to do, or what it knows about a directory. -/
inductive Call
  | step (s : Step)
  | cached (dir : Path)

inductive Answer
  | rules (config : RuleConfig)
  | found (config? : Option RuleConfig)
  | entry (e : CacheEntry)
  | done

def answer (fs : FileSystem) (c : Cascade) : Call → Answer
  | .step (.resolve p) => .rules (c.resolve fs p).value.1
  | .step (.findOverride p) => .found (c.findOverride fs p).value.1
  | .step _ => .done
  | .cached dir => .entry (c.cached dir)

def afterCall (fs : FileSystem) (c : Cascade) : Call → Cascade
  | .step s => c.step fs s
  | .cached _ => c

/-- The cascade after some calls, each with the files that it meets. -/
def afterCalls (c : Cascade) (history : List (FileSystem × Call)) : Cascade :=
  history.foldl (fun c m => c.afterCall m.1 m.2) c

/-- The answer to each call, and how often a rule file has been read by then. -/
def transcript (c : Cascade) : List (FileSystem × Call) → List (Answer × ℕ)
  | [] => []
  | m :: history =>
    (c.answer m.1 m.2, (c.afterCall m.1 m.2).reads.length) :: (c.afterCall m.1 m.2).transcript history

/-- A call again, with other paths in the place of its own.  The files that change are the same ones. -/
inductive Call.Rewritten (R : Path → Path → Prop) : Call → Call → Prop
  | resolve {p q : Path} (h : R p q) : Rewritten R (.step (.resolve p)) (.step (.resolve q))
  | findOverride {p q : Path} (h : R p q) : Rewritten R (.step (.findOverride p)) (.step (.findOverride q))
  | invalidate {p q : Path} (h : R p q) : Rewritten R (.step (.invalidate p)) (.step (.invalidate q))
  | didChangeFiles {ps qs : List Path} (h : List.Forall₂ R ps qs) :
    Rewritten R (.step (.didChangeFiles ps)) (.step (.didChangeFiles qs))
  | cached {p q : Path} (h : R p q) : Rewritten R (.cached p) (.cached q)
  | setEditorOverride (rules : RuleConfig) :
    Rewritten R (.step (.setEditorOverride rules)) (.step (.setEditorOverride rules))
  | addFile (f : Path) (text : String) : Rewritten R (.step (.addFile f text)) (.step (.addFile f text))
  | removeFile (f : Path) : Rewritten R (.step (.removeFile f)) (.step (.removeFile f))

/-- The same files are met by the same calls, but for their paths. -/
def Rewrites (R : Path → Path → Prop) (history history' : List (FileSystem × Call)) : Prop :=
  List.Forall₂ (fun m m' => m'.1 = m.1 ∧ m.2.Rewritten R m'.2) history history'

theorem Call.Rewritten.mono {R R' : Path → Path → Prop} (hR : ∀ p q, R p q → R' p q) {k k' : Call}
    (h : k.Rewritten R k') : k.Rewritten R' k' := by
  cases h with
  | resolve h => exact .resolve (hR _ _ h)
  | findOverride h => exact .findOverride (hR _ _ h)
  | invalidate h => exact .invalidate (hR _ _ h)
  | didChangeFiles h => exact .didChangeFiles (h.imp hR)
  | cached h => exact .cached (hR _ _ h)
  | setEditorOverride rules => exact .setEditorOverride rules
  | addFile f text => exact .addFile f text
  | removeFile f => exact .removeFile f

theorem Rewrites.mono {R R' : Path → Path → Prop} (hR : ∀ p q, R p q → R' p q)
    {history history' : List (FileSystem × Call)} (h : Rewrites R history history') : Rewrites R' history history' :=
  List.Forall₂.imp (fun _ _ hm => ⟨hm.1, hm.2.mono hR⟩) h

theorem absolute_of_workingDir (hc : c.workingDir = some wd) (p : Path) : c.absolute p = wd.join p := by
  rw [absolute, hc]

theorem workingDir_afterCall (fs : FileSystem) (c : Cascade) (k : Call) :
    (c.afterCall fs k).workingDir = c.workingDir := by
  cases k with
  | step s => exact workingDir_step fs c s
  | cached dir => rfl

/-! ## Absolute keys -/

/-- All directories in the cache are absolute. -/
def Rooted (c : Cascade) : Prop := ∀ ks, c.cache.contains ks → ks.head? = some .root

theorem head?_of_mem_candidates (hwd : wd.isAbsolute) (hc : c.workingDir = some wd) {p : Path} {ks : List Component}
    (h : ks ∈ (c.candidates fs p).map components) : ks.head? = some .root := by
  have hroot := isAbsolute_iff.mp (isAbsolute_join hwd p)
  rw [map_components_candidates hwd hc] at h
  rw [← hroot]
  split_ifs at h
  · exact head?_of_mem_atOrAbove h
  · obtain ⟨hne, hpre⟩ := mem_atOrAbove.mp h
    exact head?_of_mem_atOrAbove (mem_atOrAbove.mpr ⟨hne, hpre.trans (List.dropLast_prefix _)⟩)

theorem Rooted.findOverride (h : Rooted c) (hwd : wd.isAbsolute) (hc : c.workingDir = some wd) (fs : FileSystem)
    (p : Path) : Rooted (c.findOverride fs p).value.2 := fun ks hks => by
  by_cases hread : ks ∈ (c.unread fs p).map components
  · obtain ⟨dir, hdir, rfl⟩ := List.mem_map.mp hread
    exact head?_of_mem_candidates hwd hc (List.mem_map_of_mem (mem_of_mem_unreadIn hdir))
  · refine h ks ?_
    rw [SortedMap.contains, (findOverride_fills fs c p).2.kept ks hread] at hks
    exact hks

/-- A notification adds no directory. -/
theorem Rooted.invalidate (h : Rooted c) (p : Path) : Rooted (c.invalidate p).value := fun ks hks => by
  rw [Cascade.invalidate] at hks
  split_ifs at hks with hknown
  · change SortedMap.contains (c.cache.insert _ _) ks at hks
    rw [SortedMap.contains, SortedMap.get?_insert] at hks
    split_ifs at hks with heq
    · exact heq ▸ h _ hknown
    · exact h ks hks
  · exact h ks hks

theorem Rooted.didChangeFiles (h : Rooted c) (ps : List Path) : Rooted (c.didChangeFiles ps).value := by
  induction ps generalizing c with
  | nil => exact h
  | cons p ps ih => exact ih (h.invalidate p)

theorem rooted_afterCall (h : Rooted c) (hwd : wd.isAbsolute) (hc : c.workingDir = some wd) (fs : FileSystem)
    (k : Call) : Rooted (c.afterCall fs k) := by
  cases k with
  | cached dir => exact h
  | step s =>
    cases s with
    | resolve p =>
      show Rooted (c.resolve fs p).value.2
      rw [state_resolve]
      split_ifs
      · exact h.findOverride hwd hc fs p
      · exact h
    | findOverride p => exact h.findOverride hwd hc fs p
    | invalidate p => exact h.invalidate p
    | didChangeFiles ps => exact h.didChangeFiles ps
    | setEditorOverride rules => exact h
    | addFile f text => exact h
    | removeFile f => exact h

theorem rooted_afterCalls (h : Rooted c) (hwd : wd.isAbsolute) (hc : c.workingDir = some wd)
    (history : List (FileSystem × Call)) : Rooted (c.afterCalls history) := by
  induction history generalizing c with
  | nil => exact h
  | cons m history ih => exact ih (rooted_afterCall h hwd hc m.1 m.2) ((workingDir_afterCall m.1 c m.2).trans hc)

/-! ## Paths as seen from the working directory -/

theorem findOverride_congr (fs : FileSystem) {p q : Path} (h : c.absolute q = c.absolute p) :
    c.findOverride fs q = c.findOverride fs p := by
  rw [findOverride, findOverride, candidates, candidates, h]

theorem invalidate_congr {p q : Path} (h : c.absolute q = c.absolute p) : c.invalidate q = c.invalidate p := by
  rw [invalidate, invalidate, h]

theorem didChangeFiles_congr (hc : c.workingDir = some wd) {ps qs : List Path}
    (h : List.Forall₂ (fun p q => wd.join q = wd.join p) ps qs) :
    (c.didChangeFiles qs).value = (c.didChangeFiles ps).value := by
  induction h generalizing c with
  | nil => rfl
  | @cons p q ps qs hpq _ ih =>
    have hfirst : c.invalidate q = c.invalidate p :=
      invalidate_congr (by rw [absolute_of_workingDir hc, absolute_of_workingDir hc, hpq])
    show ((c.invalidate q).value.didChangeFiles qs).value = ((c.invalidate p).value.didChangeFiles ps).value
    rw [hfirst]
    exact ih ((workingDir_invalidate c p).trans hc)

/-- A call sees its paths from the working directory. -/
theorem call_congr (hc : c.workingDir = some wd) (fs : FileSystem) {k k' : Call}
    (h : k.Rewritten (fun p q => wd.join q = wd.join p) k') :
    c.answer fs k' = c.answer fs k ∧ c.afterCall fs k' = c.afterCall fs k := by
  have habs : ∀ {p q : Path}, wd.join q = wd.join p → c.absolute q = c.absolute p := fun hpq => by
    rw [absolute_of_workingDir hc, absolute_of_workingDir hc, hpq]
  cases h with
  | @resolve p q h =>
    have hfind := findOverride_congr fs (habs h)
    constructor
    · rw [answer, answer, value_resolve_eq, value_resolve_eq, hfind]
    · show (c.resolve fs q).value.2 = (c.resolve fs p).value.2
      rw [state_resolve, state_resolve, hfind]
  | @findOverride p q h =>
    have hfind := findOverride_congr fs (habs h)
    constructor
    · rw [answer, answer, hfind]
    · show (c.findOverride fs q).value.2 = (c.findOverride fs p).value.2
      rw [hfind]
  | @invalidate p q h =>
    refine ⟨rfl, ?_⟩
    show (c.invalidate q).value = (c.invalidate p).value
    rw [invalidate_congr (habs h)]
  | didChangeFiles h => exact ⟨rfl, didChangeFiles_congr hc h⟩
  | cached h => exact ⟨by rw [answer, answer, Cascade.cached, Cascade.cached, habs h], rfl⟩
  | setEditorOverride | addFile | removeFile => exact ⟨rfl, rfl⟩

theorem calls_congr (hc : c.workingDir = some wd) {history history' : List (FileSystem × Call)}
    (h : Rewrites (fun p q => wd.join q = wd.join p) history history') :
    c.transcript history' = c.transcript history ∧ c.afterCalls history' = c.afterCalls history := by
  induction h generalizing c with
  | nil => exact ⟨rfl, rfl⟩
  | @cons m m' history history' hm _ ih =>
    obtain ⟨fs, k⟩ := m
    obtain ⟨fs', k'⟩ := m'
    obtain ⟨rfl, hcall⟩ := hm
    obtain ⟨hanswer, hafter⟩ := call_congr hc fs' hcall
    obtain ⟨hrest, hfinal⟩ := ih ((workingDir_afterCall fs' c k).trans hc)
    constructor
    · rw [transcript, transcript, hanswer, hafter, hrest]
    · show (c.afterCall fs' k').afterCalls history' = (c.afterCall fs' k).afterCalls history
      rw [hafter, hfinal]

/-! ## Paths by their components -/

/-- Two cascades that know the same and have read the same files, by components. -/
structure Alike (c c' : Cascade) : Prop where
  workingDir : c'.workingDir = c.workingDir
  editorOverride : c'.editorOverride = c.editorOverride
  cache : c'.cache = c.cache
  reads : c'.reads.map components = c.reads.map components

theorem Alike.refl (c : Cascade) : Alike c c := ⟨rfl, rfl, rfl, rfl⟩

theorem Alike.length_reads (h : Alike c c') : c'.reads.length = c.reads.length := by
  rw [← List.length_map components, h.reads, List.length_map]

theorem Alike.entry (h : Alike c c') {dir dir' : Path} (hdir : dir'.components = dir.components) :
    c'.entry dir' = c.entry dir := by
  rw [Cascade.entry, Cascade.entry, h.cache, hdir]

theorem Alike.lookUp (h : Alike c c') (hfs : fs.SpellingBlind) {dir dir' : Path}
    (hdir : dir'.components = dir.components) :
    (c'.lookUp fs dir').value.1 = (c.lookUp fs dir).value.1 ∧
      Alike (c.lookUp fs dir).value.2 (c'.lookUp fs dir').value.2 := by
  have hheld : held fs dir' = held fs dir := by rw [held, held, hfs.ruleFile dir' dir hdir]
  have hsame := h.entry hdir
  cases hentry : c.entry dir with
  | missing | found =>
    have hknown : c.entry dir ≠ .unknown := by simp [hentry]
    rw [value_lookUp_of_known hknown, value_lookUp_of_known (hsame.trans_ne hknown)]
    exact ⟨hsame, h⟩
  | unknown =>
    rw [value_lookUp_of_unknown hentry, value_lookUp_of_unknown (hsame.trans hentry)]
    refine ⟨hheld, h.workingDir, h.editorOverride, ?_, ?_⟩
    · show c'.cache.insert dir'.components (held fs dir') = c.cache.insert dir.components (held fs dir)
      rw [h.cache, hdir, hheld]
    · show (ruleFile dir' :: c'.reads).map components = (ruleFile dir :: c.reads).map components
      rw [List.map_cons, List.map_cons, components_ruleFile, components_ruleFile, hdir, h.reads]

/-- Searches through the same directories find the same. -/
theorem Alike.findIn (h : Alike c c') (hfs : fs.SpellingBlind) {dirs dirs' : List Path}
    (hdirs : dirs'.map components = dirs.map components) :
    (c'.findIn fs dirs').value.1 = (c.findIn fs dirs).value.1 ∧
      Alike (c.findIn fs dirs).value.2 (c'.findIn fs dirs').value.2 := by
  induction dirs generalizing c c' dirs' with
  | nil =>
    obtain rfl := List.map_eq_nil_iff.mp hdirs
    exact ⟨rfl, h⟩
  | cons dir dirs ih =>
    obtain ⟨dir', rest, rfl, hdir, hrest⟩ := List.map_eq_cons_iff.mp hdirs
    obtain ⟨hvalue, hstate⟩ := h.lookUp hfs hdir
    rw [(lookUp_fills fs c dir).1, (lookUp_fills fs c' dir').1] at hvalue
    rw [value_findIn_cons, value_findIn_cons, hvalue]
    split_ifs
    · exact ⟨rfl, hstate⟩
    · exact ih hstate hrest

variable {p q : Path}

theorem Alike.findOverride (h : Alike c c') (hfs : fs.SpellingBlind) (hwd : wd.isAbsolute)
    (hc : c.workingDir = some wd) (hpq : (wd.join p).components = (wd.join q).components) :
    (c'.findOverride fs q).value.1 = (c.findOverride fs p).value.1 ∧
      Alike (c.findOverride fs p).value.2 (c'.findOverride fs q).value.2 := by
  have hc' : c'.workingDir = some wd := h.workingDir.trans hc
  refine h.findIn hfs ?_
  rw [map_components_candidates hwd hc', map_components_candidates hwd hc, hfs.isDirectory _ _ hpq, hpq]

theorem Alike.resolve (h : Alike c c') (hfs : fs.SpellingBlind) (hwd : wd.isAbsolute)
    (hc : c.workingDir = some wd) (hpq : (wd.join p).components = (wd.join q).components) :
    (c'.resolve fs q).value.1 = (c.resolve fs p).value.1 ∧
      Alike (c.resolve fs p).value.2 (c'.resolve fs q).value.2 := by
  obtain ⟨hvalue, hstate⟩ := h.findOverride hfs hwd hc hpq
  rw [value_resolve_eq, value_resolve_eq, state_resolve, state_resolve, h.editorOverride]
  split_ifs
  · exact ⟨by rw [hvalue], hstate⟩
  · exact ⟨rfl, h⟩

theorem components_notified_eq (p : Path) :
    (notified p).components = if p.fileName? = some ruleFileName then p.components.dropLast else p.components := by
  split_ifs with hname
  · exact components_notified hname
  · rw [notified, if_neg hname]

theorem Alike.invalidate (h : Alike c c') (hc : c.workingDir = some wd)
    (hpq : (wd.join p).components = (wd.join q).components) :
    Alike (c.invalidate p).value (c'.invalidate q).value := by
  have hnotified : (notified (c'.absolute q)).components = (notified (c.absolute p)).components := by
    rw [absolute_of_workingDir hc, absolute_of_workingDir (h.workingDir.trans hc), components_notified_eq,
      components_notified_eq, fileName?, fileName?, hpq]
  rw [Cascade.invalidate, Cascade.invalidate, hnotified, h.cache]
  split_ifs
  · exact ⟨h.workingDir, h.editorOverride, rfl, h.reads⟩
  · exact h

theorem Alike.didChangeFiles (h : Alike c c') (hc : c.workingDir = some wd) {ps qs : List Path}
    (hpaths : List.Forall₂ (fun p q => (wd.join p).components = (wd.join q).components) ps qs) :
    Alike (c.didChangeFiles ps).value (c'.didChangeFiles qs).value := by
  induction hpaths generalizing c c' with
  | nil => exact h
  | @cons p q ps qs hpq _ ih => exact ih (h.invalidate hc hpq) ((workingDir_invalidate c p).trans hc)

theorem Alike.cached (h : Alike c c') (hc : c.workingDir = some wd)
    (hpq : (wd.join p).components = (wd.join q).components) : c'.cached q = c.cached p := by
  refine h.entry ?_
  rw [absolute_of_workingDir hc, absolute_of_workingDir (h.workingDir.trans hc), hpq]

/-- Two spellings of a call are answered alike, and the cascades go on to agree. -/
theorem Alike.call (h : Alike c c') (hfs : fs.SpellingBlind) (hwd : wd.isAbsolute) (hc : c.workingDir = some wd)
    {k k' : Call} (hk : k.Rewritten (fun p q => (wd.join p).components = (wd.join q).components) k') :
    c'.answer fs k' = c.answer fs k ∧ Alike (c.afterCall fs k) (c'.afterCall fs k') := by
  cases hk with
  | resolve hpq =>
    obtain ⟨hvalue, hstate⟩ := h.resolve hfs hwd hc hpq
    exact ⟨by rw [answer, answer, hvalue], hstate⟩
  | findOverride hpq =>
    obtain ⟨hvalue, hstate⟩ := h.findOverride hfs hwd hc hpq
    exact ⟨by rw [answer, answer, hvalue], hstate⟩
  | invalidate hpq => exact ⟨rfl, h.invalidate hc hpq⟩
  | didChangeFiles hpaths => exact ⟨rfl, h.didChangeFiles hc hpaths⟩
  | cached hpq => exact ⟨by rw [answer, answer, h.cached hc hpq], h⟩
  | setEditorOverride rules => exact ⟨rfl, h.workingDir, rfl, h.cache, h.reads⟩
  | addFile f text => exact ⟨rfl, h⟩
  | removeFile f => exact ⟨rfl, h⟩

theorem Alike.calls (h : Alike c c') (hwd : wd.isAbsolute) (hc : c.workingDir = some wd)
    {history history' : List (FileSystem × Call)} (hfs : ∀ m ∈ history, m.1.SpellingBlind)
    (hcalls : Rewrites (fun p q => (wd.join p).components = (wd.join q).components) history history') :
    c'.transcript history' = c.transcript history ∧ Alike (c.afterCalls history) (c'.afterCalls history') := by
  induction hcalls generalizing c c' with
  | nil => exact ⟨rfl, h⟩
  | @cons m m' history history' hm _ ih =>
    obtain ⟨fs, k⟩ := m
    obtain ⟨fs', k'⟩ := m'
    obtain ⟨rfl, hcall⟩ := hm
    obtain ⟨hanswer, hafter⟩ := h.call (hfs _ List.mem_cons_self) hwd hc hcall
    obtain ⟨hrest, hfinal⟩ := ih hafter ((workingDir_afterCall fs' c k).trans hc)
      fun m hm => hfs m (List.mem_cons_of_mem _ hm)
    refine ⟨?_, hfinal⟩
    rw [transcript, transcript, hanswer, hafter.length_reads, hrest]

/-! ## Spellings -/

/-- A path written in another way: seen from the working directory, or with the same components. -/
inductive Respelled (wd p : Path) : Path → Prop
  | joined : Respelled wd p (wd.join p)
  | sameComponents {q : Path} (h : p.components = q.components) : Respelled wd p q

theorem join_join (hwd : wd.isAbsolute) (p : Path) : wd.join (wd.join p) = wd.join p :=
  join_of_isAbsolute (isAbsolute_join hwd p)

theorem components_join_congr (hwd : wd.isAbsolute) (h : p.components = q.components) :
    (wd.join p).components = (wd.join q).components := by
  have habs : p.isAbsolute ↔ q.isAbsolute := by rw [isAbsolute_iff, isAbsolute_iff, h]
  have hne : wd.text ≠ "" := fun hempty => components_ne_nil_of_isAbsolute hwd (components_eq_nil_iff.mpr hempty)
  by_cases hp : p.isAbsolute
  · rw [join_of_isAbsolute hp, join_of_isAbsolute (habs.mp hp), h]
  · rw [components_join_eq hne hp, components_join_eq hne (mt habs.mpr hp), h]

theorem Respelled.components_join (hwd : wd.isAbsolute) (h : Respelled wd p q) :
    (wd.join p).components = (wd.join q).components := by
  cases h with
  | joined => rw [join_join hwd]
  | sameComponents h => exact components_join_congr hwd h

/-- **Spellings are interchangeable.**  From an absolute working directory all keys of the cache are absolute.  When
relative paths are replaced by the joined ones, each call answers the same after the same number of reads, and the
cascade ends up the same, whatever the files are.  When paths are replaced by any with the same components, that holds
over files that go by components, the cascade being the same but for the spelling of what it has read. -/
theorem spelling_immaterial {wd : Path} (hwd : wd.isAbsolute) (history history' : List (FileSystem × Call)) :
    let c := Cascade.new (some wd)
    (∀ ks ∈ (c.afterCalls history).cache.keys, ks.head? = some .root) ∧
    (Rewrites (fun p q => q = p ∨ q = wd.join p) history history' →
      c.transcript history' = c.transcript history ∧ c.afterCalls history' = c.afterCalls history) ∧
    ((∀ m ∈ history, m.1.SpellingBlind) → Rewrites (Respelled wd) history history' →
      c.transcript history' = c.transcript history ∧
      (c.afterCalls history').cache = (c.afterCalls history).cache ∧
      (c.afterCalls history').reads.map components = (c.afterCalls history).reads.map components) := by
  intro c
  have hempty : Rooted c := fun ks hks => by cases hks
  refine ⟨fun ks hks => ?_, fun h => ?_, fun hfs h => ?_⟩
  · exact rooted_afterCalls hempty hwd rfl history ks (SortedMap.mem_keys_iff.mp hks)
  · refine calls_congr rfl (h.mono fun p q hpq => ?_)
    rcases hpq with rfl | rfl
    · rfl
    · exact join_join hwd p
  · obtain ⟨htranscript, halike⟩ := (Alike.refl c).calls hwd rfl hfs (h.mono fun p q hpq => hpq.components_join hwd)
    exact ⟨htranscript, halike.cache, halike.reads⟩

/-- The rule file of a shop changes between two look-ups of a page. -/
def shopCalls (page ruleFile dir : Path) : List (FileSystem × Call) :=
  [(deepShop "80", .step (.resolve page)), (deepShop "80", .cached dir), (deepShop "100", .step (.invalidate ruleFile)),
    (deepShop "100", .step (.didChangeFiles [page, ruleFile])), (deepShop "100", .step (.findOverride page))]

theorem spellingBlind_deepShop (limit : String) : (deepShop limit).SpellingBlind := MemoryFiles.spellingBlind _

theorem rewrites_shopCalls {R : Path → Path → Prop} {page ruleFile dir page' ruleFile' dir' : Path}
    (hpage : R page page') (hrule : R ruleFile ruleFile') (hdir : R dir dir') :
    Rewrites R (shopCalls page ruleFile dir) (shopCalls page' ruleFile' dir') := by
  refine .cons ⟨rfl, .resolve hpage⟩ (.cons ⟨rfl, .cached hdir⟩ (.cons ⟨rfl, .invalidate hrule⟩
    (.cons ⟨rfl, .didChangeFiles ?_⟩ (.cons ⟨rfl, .findOverride hpage⟩ .nil))))
  exact .cons hpage (.cons hrule .nil)

theorem spelling_immaterial_shop :
    let wd : Path := ⟨"/shop"⟩
    let c := Cascade.new (some wd)
    let relative := shopCalls ⟨"cart/page.isml"⟩ ⟨".htmlhintrc"⟩ ⟨"cart"⟩
    let joined := shopCalls ⟨"/shop/cart/page.isml"⟩ ⟨"/shop/.htmlhintrc"⟩ ⟨"/shop/cart"⟩
    let respelled := shopCalls ⟨"cart//page.isml"⟩ ⟨".htmlhintrc/"⟩ ⟨"cart/."⟩
    wd.isAbsolute ∧ (∀ m ∈ relative, m.1.SpellingBlind) ∧
    Rewrites (fun p q => q = p ∨ q = wd.join p) relative joined ∧ Rewrites (Respelled wd) relative respelled ∧
    (c.transcript relative).map Prod.snd = [2, 2, 2, 2, 3] ∧
    c.transcript joined = c.transcript relative ∧ c.afterCalls joined = c.afterCalls relative ∧
    c.transcript respelled = c.transcript relative ∧
    (c.afterCalls respelled).cache = (c.afterCalls relative).cache := by
  intro wd c relative joined respelled
  have hwd : wd.isAbsolute := by decide
  have hfs : ∀ m ∈ relative, m.1.SpellingBlind := by
    simp [relative, shopCalls, spellingBlind_deepShop]
  have hjoined : Rewrites (fun p q => q = p ∨ q = wd.join p) relative joined :=
    rewrites_shopCalls (by decide) (by decide) (by decide)
  have hrespelled : Rewrites (Respelled wd) relative respelled :=
    rewrites_shopCalls (.sameComponents (by decide)) (.sameComponents (by decide)) (.sameComponents (by decide))
  obtain ⟨-, hexact, -⟩ := spelling_immaterial hwd relative joined
  obtain ⟨-, -, hblind⟩ := spelling_immaterial hwd relative respelled
  obtain ⟨htranscript, hcache, -⟩ := hblind hfs hrespelled
  exact ⟨hwd, hfs, hjoined, hrespelled, by decide +kernel, (hexact hjoined).1, (hexact hjoined).2, htranscript, hcache⟩

end Cascade

end TagLint

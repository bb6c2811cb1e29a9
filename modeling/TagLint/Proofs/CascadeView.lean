import Mathlib.Logic.Function.Basic
import TagLint.Cascade
import TagLint.Files.Memory
import TagLint.Proofs.MapLookup
import TagLint.Proofs.PathComponents

/-!
# What a look-up sees, and what it leaves behind

The `view` of a cascade joins what is known and what the disk holds.  A search sees the view and nothing else
(`value_findIn`); it remembers the part of the view that it went through (`findIn_remembers`), which changes no view
(`Remembers.view_eq`).  Every fact about searches one after the other follows from these three.
-/

namespace TagLint

/-! ## Rule files on disk -/

namespace CacheEntry

/-- The configuration of an entry. -/
def config? : CacheEntry → Option RuleConfig
  | .found config => some config
  | _ => none

/-- The entry of a rule file that has been read. -/
def ofConfig? : Option RuleConfig → CacheEntry
  | some config => .found config
  | none => .missing

@[simp] theorem config?_ofConfig? (config? : Option RuleConfig) : (ofConfig? config?).config? = config? := by
  cases config? <;> rfl

end CacheEntry

theorem MemoryFiles.toOption_read (files : MemoryFiles) (p : Path) :
    (files.read p).toOption = files.get? p.components := by
  rw [read]
  cases files.get? p.components <;> rfl

namespace Cascade

theorem components_ruleFile (dir : Path) : (ruleFile dir).components = dir.components ++ [.name ruleFileName] := by
  have hrel : ¬ (⟨ruleFileName⟩ : Path).isAbsolute := by decide
  have hname : (Path.pieces ruleFileName.toList).map Path.Component.ofPiece = [.name ruleFileName] := by decide
  by_cases hdir : dir.text = ""
  · have hjoin : ruleFile dir = ⟨ruleFileName⟩ := by
      rw [ruleFile, Path.join, if_neg hrel, if_pos (.inl (by simp [hdir])), hdir]
      simp
    rw [hjoin, Path.components_eq_nil_iff.mpr hdir]
    decide
  · rw [ruleFile, Path.components_join hdir hrel, hname]

/-- What the rule file of a directory holds. -/
def held (fs : FileSystem) (dir : Path) : CacheEntry :=
  .ofConfig? ((fs.read (ruleFile dir)).toOption.bind fun text => (RuleConfig.parse text).toOption)

/-- Reading a rule file tells what it holds, and counts. -/
theorem value_readRuleFile (fs : FileSystem) (c : Cascade) (dir : Path) :
    (c.readRuleFile fs dir).value = (held fs dir, { c with reads := ruleFile dir :: c.reads }) := by
  rw [readRuleFile, held]
  cases hr : fs.read (ruleFile dir) with
  | error e => rfl
  | ok text =>
    cases hp : RuleConfig.parse text with
    | error e => simp [hp, Except.toOption, CacheEntry.ofConfig?]
    | ok config => simp [hp, Except.toOption, CacheEntry.ofConfig?]

/-- A look-up of a directory that nothing is known about reads its rule file. -/
theorem value_lookUp_of_unknown {c : Cascade} {dir : Path} (h : c.entry dir = .unknown) (fs : FileSystem) :
    (c.lookUp fs dir).value =
      (held fs dir, { c.remember dir (held fs dir) with reads := ruleFile dir :: c.reads }) := by
  rw [lookUp, h, Logged.value_bind, value_readRuleFile]
  rfl

/-- A look-up of a directory that something is known about reads nothing. -/
theorem value_lookUp_of_known {c : Cascade} {dir : Path} (h : c.entry dir ≠ .unknown) (fs : FileSystem) :
    (c.lookUp fs dir).value = (c.entry dir, c) := by
  rw [lookUp]
  cases he : c.entry dir with
  | unknown => exact absurd he h
  | missing | found => rfl

/-- What the rule files of some directories hold, by components. -/
def Holds (fs : FileSystem) (disk : List Component → CacheEntry) (dirs : List Path) : Prop :=
  ∀ dir ∈ dirs, held fs dir = disk dir.components

end Cascade

/-- Some paths are read alike when they have the same components: as for an operating system, where a doubled or a
trailing separator leads to the same file. -/
def FileSystem.ReadsAlike (fs : FileSystem) (files : List Path) : Prop :=
  ∀ f ∈ files, ∀ g ∈ files, f.components = g.components → (fs.read f).toOption = (fs.read g).toOption

theorem MemoryFiles.readsAlike (files : MemoryFiles) (paths : List Path) : files.fileSystem.ReadsAlike paths := by
  intro f _ g _ h
  show (files.read f).toOption = (files.read g).toOption
  rw [toOption_read, toOption_read, h]

namespace Cascade

theorem held_congr {fs : FileSystem} {files : List Path} (h : fs.ReadsAlike files) {dir dir' : Path}
    (hmem : ruleFile dir ∈ files) (hmem' : ruleFile dir' ∈ files) (hdir : dir.components = dir'.components) :
    held fs dir = held fs dir' := by
  have hfile : (ruleFile dir).components = (ruleFile dir').components := by
    rw [components_ruleFile, components_ruleFile, hdir]
  rw [held, held, h _ hmem _ hmem' hfile]

theorem exists_holds {fs : FileSystem} {dirs : List Path} (h : fs.ReadsAlike (dirs.map ruleFile)) :
    ∃ disk, Holds fs disk dirs := by
  refine ⟨fun ks => ((dirs.find? fun d => d.components = ks).map (held fs)).getD .missing, fun dir hdir => ?_⟩
  show held fs dir = ((dirs.find? fun d => d.components = dir.components).map (held fs)).getD .missing
  have hsome : (dirs.find? fun d => d.components = dir.components).isSome :=
    List.find?_isSome.mpr ⟨dir, hdir, decide_eq_true rfl⟩
  obtain ⟨d, hfind⟩ := Option.isSome_iff_exists.mp hsome
  have hsame : d.components = dir.components := by simpa using List.find?_some hfind
  rw [hfind, Option.map_some, Option.getD_some]
  exact held_congr h (List.mem_map_of_mem hdir) (List.mem_map_of_mem (List.mem_of_find?_eq_some hfind)) hsame.symm

theorem Holds.subset {fs : FileSystem} {disk : List Component → CacheEntry} {dirs dirs' : List Path}
    (h : Holds fs disk dirs) (hsub : dirs' ⊆ dirs) : Holds fs disk dirs' := fun dir hdir => h dir (hsub hdir)

/-! ## The view of a cascade -/

variable {fs : FileSystem} {disk : List Component → CacheEntry} {c c' c'' : Cascade}

/-- What is seen of a directory: what is known about it, else what the disk holds. -/
def view (disk : List Component → CacheEntry) (c : Cascade) (ks : List Component) : CacheEntry :=
  match (c.cache.get? ks).getD .unknown with
  | .unknown => disk ks
  | e => e

/-- `c'` is `c` with the view of the directories `seen` remembered. -/
structure Remembers (disk : List Component → CacheEntry) (c : Cascade) (seen : List (List Component))
    (c' : Cascade) : Prop where
  workingDir : c'.workingDir = c.workingDir
  editorOverride : c'.editorOverride = c.editorOverride
  get? : ∀ ks, c'.cache.get? ks = if ks ∈ seen then some (c.view disk ks) else c.cache.get? ks

theorem Remembers.refl (disk : List Component → CacheEntry) (c : Cascade) : Remembers disk c [] c :=
  ⟨rfl, rfl, fun _ => rfl⟩

/-- Remembering what is seen does not change what is seen. -/
theorem Remembers.view_eq {seen : List (List Component)} (h : Remembers disk c seen c') :
    c'.view disk = c.view disk := by
  funext ks
  have hget := h.get? ks
  split_ifs at hget with hks
  · rw [view, hget]
    unfold view
    generalize (c.cache.get? ks).getD .unknown = e
    generalize disk ks = d
    cases e <;> cases d <;> rfl
  · rw [view, view, hget]

theorem Remembers.trans {seen seen' : List (List Component)} (h : Remembers disk c seen c')
    (h' : Remembers disk c' seen' c'') : Remembers disk c (seen ++ seen') c'' where
  workingDir := h'.workingDir.trans h.workingDir
  editorOverride := h'.editorOverride.trans h.editorOverride
  get? ks := by
    rw [h'.get?, h.view_eq, h.get?]
    by_cases h1 : ks ∈ seen <;> by_cases h2 : ks ∈ seen' <;> simp [h1, h2]

/-! ## Searches -/

theorem findSome?_congr {α β : Type} {f g : α → Option β} {l : List α} (h : ∀ a ∈ l, f a = g a) :
    l.findSome? f = l.findSome? g := by
  induction l with
  | nil => rfl
  | cons a l ih =>
    rw [List.findSome?_cons, List.findSome?_cons, h a List.mem_cons_self,
      ih fun b hb => h b (List.mem_cons_of_mem a hb)]

theorem value_lookUp {dir : Path} (hd : held fs dir = disk dir.components) (c : Cascade) :
    (c.lookUp fs dir).value.1 = c.view disk dir.components := by
  have hview : c.view disk dir.components = match c.entry dir with
      | .unknown => disk dir.components
      | e => e := rfl
  rw [hview]
  cases he : c.entry dir with
  | unknown =>
    rw [value_lookUp_of_unknown he]
    exact hd
  | missing | found => rw [value_lookUp_of_known (by simp [he]), he]

theorem lookUp_remembers {dir : Path} (hd : held fs dir = disk dir.components) (c : Cascade) :
    Remembers disk c [dir.components] (c.lookUp fs dir).value.2 := by
  have hview := value_lookUp hd c
  cases he : c.entry dir with
  | unknown =>
    rw [value_lookUp_of_unknown he] at hview ⊢
    refine ⟨rfl, rfl, fun ks => ?_⟩
    show (c.cache.insert dir.components _).get? ks = _
    rw [SortedMap.get?_insert]
    by_cases hks : ks = dir.components
    · rw [if_pos hks, if_pos (by simp [hks]), hks, ← hview]
    · rw [if_neg hks, if_neg (by simpa using hks)]
  | missing | found =>
    rw [value_lookUp_of_known (by simp [he])] at hview ⊢
    refine ⟨rfl, rfl, fun ks => ?_⟩
    by_cases hks : ks = dir.components
    · rw [if_pos (by simp [hks]), hks, ← hview]
      rw [entry] at he ⊢
      cases hg : c.cache.get? dir.components with
      | none => rw [hg] at he; cases he
      | some e => rfl
    · rw [if_neg (by simpa using hks)]

/-- The directories that a search goes through: up to the first one with a configuration. -/
def searched (view : List Component → CacheEntry) : List (List Component) → List (List Component)
  | [] => []
  | ks :: rest => if (view ks).config?.isSome then [ks] else ks :: searched view rest

theorem value_findIn {dirs : List Path} (hd : Holds fs disk dirs) (c : Cascade) :
    (c.findIn fs dirs).value.1 = (dirs.map Path.components).findSome? fun ks => (c.view disk ks).config? := by
  induction dirs generalizing c with
  | nil => rfl
  | cons dir dirs ih =>
    obtain ⟨hdir, hdirs⟩ := List.forall_mem_cons.mp hd
    have hview := value_lookUp hdir c
    have hnext := (lookUp_remembers hdir c).view_eq
    rw [List.map_cons, List.findSome?_cons, ← hview, ← hnext, findIn, Logged.value_bind]
    cases (c.lookUp fs dir).value with
    | mk e c1 =>
      cases e with
      | found config => rfl
      | unknown | missing => exact ih hdirs c1

theorem findIn_remembers {dirs : List Path} (hd : Holds fs disk dirs) (c : Cascade) :
    Remembers disk c (searched (c.view disk) (dirs.map Path.components)) (c.findIn fs dirs).value.2 := by
  induction dirs generalizing c with
  | nil => exact .refl disk c
  | cons dir dirs ih =>
    obtain ⟨hdir, hdirs⟩ := List.forall_mem_cons.mp hd
    have hview := value_lookUp hdir c
    have hstep := lookUp_remembers hdir c
    rw [List.map_cons, searched, ← hview, findIn, Logged.value_bind]
    cases hl : (c.lookUp fs dir).value with
    | mk e c1 =>
      rw [hl] at hstep
      cases e with
      | found config => exact hstep
      | unknown | missing =>
        have hrest := ih hdirs c1
        rw [hstep.view_eq] at hrest
        exact hstep.trans hrest

/-! ## Resolving -/

/-- From an absolute working directory a search goes through the directories above the path, by components. -/
theorem map_components_candidates {wd : Path} (hwd : wd.isAbsolute) (hc : c.workingDir = some wd) (p : Path) :
    (c.candidates fs p).map Path.components =
      Path.atOrAbove (if fs.isDirectory (wd.join p) then (wd.join p).components
        else (wd.join p).components.dropLast) := by
  have habs : c.absolute p = wd.join p := by rw [absolute, hc]
  have hq := Path.isAbsolute_join hwd p
  have habove := Path.map_components_above? hq
  rw [candidates, habs]
  by_cases hdir : fs.isDirectory (wd.join p)
  · simp only [hdir, if_true]
    exact Path.map_components_upward hq
  · simp only [hdir, if_false, Bool.false_eq_true]
    by_cases hroot : (wd.join p).components = [.root]
    · rw [if_pos hroot, Option.map_eq_none_iff] at habove
      rw [habove, hroot]
      rfl
    · rw [if_neg hroot] at habove
      obtain ⟨q, hab, hcomps⟩ := Option.map_eq_some_iff.mp habove
      rw [hab, ← hcomps]
      exact Path.map_components_upward (Path.isAbsolute_of_above? hq hab)

theorem candidates_congr (h : c'.workingDir = c.workingDir) (p : Path) : c'.candidates fs p = c.candidates fs p := by
  rw [candidates, candidates, absolute, absolute, h]

/-- The rules in force under a rule file, if there is one. -/
def rulesOver (found? : Option RuleConfig) : RuleConfig :=
  match found? with
  | some found => RuleConfig.defaults.overlay found
  | none => RuleConfig.defaults

/-- Under the editor's rules the files do not matter; else the rule file that is found is laid over the defaults. -/
theorem value_resolve_eq (fs : FileSystem) (c : Cascade) (p : Path) :
    (c.resolve fs p).value.1 = if c.editorOverride.isEmpty then rulesOver (c.findOverride fs p).value.1
      else RuleConfig.defaults.overlay c.editorOverride := by
  rw [resolve]
  split_ifs
  · rw [Logged.value_bind]
    cases (c.findOverride fs p).value with
    | mk found? c1 => cases found? <;> rfl
  · rfl

theorem value_resolve {c : Cascade} {p : Path} (hd : Holds fs disk (c.candidates fs p)) :
    (c.resolve fs p).value.1 =
      if c.editorOverride.isEmpty then
        rulesOver (((c.candidates fs p).map Path.components).findSome? fun ks => (c.view disk ks).config?)
      else RuleConfig.defaults.overlay c.editorOverride := by
  rw [value_resolve_eq, findOverride, value_findIn hd]

/-- What is remembered does not change what is resolved. -/
theorem value_resolve_congr {p : Path} (hd : Holds fs disk (c.candidates fs p)) {seen : List (List Component)}
    (h : Remembers disk c seen c') : (c'.resolve fs p).value.1 = (c.resolve fs p).value.1 := by
  have hcand : c'.candidates fs p = c.candidates fs p := candidates_congr h.workingDir p
  rw [value_resolve hd, value_resolve (hcand ▸ hd), h.editorOverride, h.view_eq, hcand]

/-- The directories that resolving a path goes through: none when the editor sets the rules. -/
def consulted (fs : FileSystem) (disk : List Component → CacheEntry) (c : Cascade) (p : Path) :
    List (List Component) :=
  if c.editorOverride.isEmpty then searched (c.view disk) ((c.candidates fs p).map Path.components) else []

theorem consulted_congr {seen : List (List Component)} (h : Remembers disk c seen c') (p : Path) :
    c'.consulted fs disk p = c.consulted fs disk p := by
  rw [consulted, consulted, h.editorOverride, h.view_eq, candidates_congr h.workingDir]

theorem findOverride_remembers {c : Cascade} {p : Path} (hd : Holds fs disk (c.candidates fs p)) :
    Remembers disk c (searched (c.view disk) ((c.candidates fs p).map Path.components))
      (c.findOverride fs p).value.2 := findIn_remembers hd c

theorem resolve_remembers {c : Cascade} {p : Path} (hd : Holds fs disk (c.candidates fs p)) :
    Remembers disk c (c.consulted fs disk p) (c.resolve fs p).value.2 := by
  rw [consulted, resolve]
  by_cases h : c.editorOverride.isEmpty
  · have hfind := findOverride_remembers hd
    rw [if_pos h, if_pos h, Logged.value_bind]
    cases hv : (c.findOverride fs p).value with
    | mk found? c1 =>
      rw [hv] at hfind
      cases found? <;> exact hfind
  · rw [if_neg h, if_neg h]
    exact .refl disk c

/-! ## Notifications -/

theorem components_notified {p : Path} (h : p.fileName? = some ruleFileName) :
    (notified p).components = p.components.dropLast := by
  have hlast := Path.fileName?_eq_some_iff.mp h
  have hparent := Path.map_components_parent? p
  have hroot : ¬ (p.components = [] ∨ p.components = [.root]) := by
    rintro (hc | hc) <;> rw [hc] at hlast <;> cases hlast
  rw [if_neg hroot] at hparent
  obtain ⟨q, hq, hcomps⟩ := Option.map_eq_some_iff.mp hparent
  rw [notified, if_pos h, hq]
  exact hcomps

theorem workingDir_invalidate (c : Cascade) (p : Path) : (c.invalidate p).value.workingDir = c.workingDir := by
  rw [invalidate]
  split_ifs <;> rfl

theorem editorOverride_invalidate (c : Cascade) (p : Path) :
    (c.invalidate p).value.editorOverride = c.editorOverride := by
  rw [invalidate]
  split_ifs <;> rfl

/-- After a notification the disk is seen again in its directory, and nothing else changes. -/
theorem view_invalidate (disk : List Component → CacheEntry) (c : Cascade) (p : Path) (ks : List Component) :
    (c.invalidate p).value.view disk ks =
      if ks = (notified (c.absolute p)).components then disk ks else c.view disk ks := by
  rw [invalidate]
  by_cases hc : c.cache.contains (notified (c.absolute p)).components
  · rw [if_pos hc]
    show view disk { c with cache := c.cache.insert _ _ } ks = _
    rw [view, SortedMap.get?_insert]
    by_cases hks : ks = (notified (c.absolute p)).components
    · rw [if_pos hks, if_pos hks]
      rfl
    · rw [if_neg hks, if_neg hks, view]
  · rw [if_neg hc]
    show c.view disk ks = _
    by_cases hks : ks = (notified (c.absolute p)).components
    · rw [SortedMap.contains, Option.not_isSome_iff_eq_none, ← hks] at hc
      rw [if_pos hks, view, hc]
      rfl
    · rw [if_neg hks]

end Cascade

end TagLint

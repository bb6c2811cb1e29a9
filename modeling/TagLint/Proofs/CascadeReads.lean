import TagLint.Proofs.NoticeReach

/-!
# Disk accounting — which rule files a cascade reads

A search walks up to the first directory with a configuration (`walk`).  It reads the rule files of the directories on
the walk that are unknown (`unread`), each once, and fills their entries in (`Fills`); all other entries stay.

* `nodup_components_candidates`: the directories at and above a path differ by their components, from any working
  directory, so that what one step of a search remembers does not matter to the others (`findIn_fills`).
* `step_cases`: a step of a run fills entries, takes notices, or sets the rules of the editor.
* `findOverride_again`: what has been walked through is known until a notification, so walking again reads nothing.
* `budget`: the reads of a rule file, and one more while its directory is unknown.  No look-up raises it and a
  notification raises it by one (`budget_run`).

`reads_accounted` puts these together.
-/

namespace TagLint

open TagLint.Path

/-! ## Directories at and above a path -/

namespace Path

/-- How far up a path can be walked; the current directory is the last one. -/
def height (ks : List Component) : ℕ := if ks = [.here] then 0 else ks.length

theorem height_above? {p q : Path} (h : p.above? = some q) : height q.components < height p.components := by
  have habove := map_components_above?_eq p
  rw [h, Option.map_some] at habove
  split_ifs at habove with htop hdrop
  · have hhere : p.components ≠ [.here] := fun heq => htop (.inr (.inr heq))
    have hne : p.components ≠ [] := fun heq => htop (.inl heq)
    rw [Option.some.inj habove, height, height, if_pos rfl, if_neg hhere]
    exact List.length_pos_iff.mpr hne
  · have hhere : p.components ≠ [.here] := fun heq => htop (.inr (.inr heq))
    have hne : p.components ≠ [] := fun heq => htop (.inl heq)
    have hpos := List.length_pos_iff.mpr hne
    have hle : height q.components ≤ q.components.length := by
      unfold height
      split_ifs <;> omega
    rw [Option.some.inj habove, List.length_dropLast] at hle
    rw [height.eq_def p.components, if_neg hhere, Option.some.inj habove]
    omega

theorem height_le_of_mem_upwardUpTo {count : ℕ} {p q : Path} (h : q ∈ upwardUpTo count p) :
    height q.components ≤ height p.components := by
  induction count generalizing p with
  | zero => cases h
  | succ count ih =>
    rw [upwardUpTo] at h
    rcases List.mem_cons.mp h with rfl | h
    · exact le_refl _
    · cases hab : p.above? with
      | none => rw [hab] at h; cases h
      | some r =>
        rw [hab] at h
        exact (ih h).trans (height_above? hab).le

theorem nodup_components_upwardUpTo (count : ℕ) (p : Path) : ((upwardUpTo count p).map components).Nodup := by
  induction count generalizing p with
  | zero => exact .nil
  | succ count ih =>
    rw [upwardUpTo, List.map_cons, List.nodup_cons]
    cases hab : p.above? with
    | none => exact ⟨List.not_mem_nil, .nil⟩
    | some r =>
      refine ⟨fun hmem => ?_, ih r⟩
      obtain ⟨q, hq, heq⟩ := List.mem_map.mp hmem
      have hle := height_le_of_mem_upwardUpTo hq
      have hlt := height_above? hab
      rw [heq] at hle
      omega

end Path

/-- Whether nothing is known. -/
def CacheEntry.isUnknown : CacheEntry → Bool
  | .unknown => true
  | _ => false

namespace Cascade

variable {fs fs' : FileSystem} {c c' c'' : Cascade} {p : Path}

theorem nodup_components_candidates (fs : FileSystem) (c : Cascade) (p : Path) :
    ((c.candidates fs p).map components).Nodup := by
  rw [candidates]
  show (List.map components (if _ then _ else _)).Nodup
  split_ifs
  · exact nodup_components_upwardUpTo _ _
  · cases (c.absolute p).above? with
    | none => exact .nil
    | some dir => exact nodup_components_upwardUpTo _ dir

/-! ## One search -/

/-- What a look-up sees of a directory: what is known about it, else what its rule file holds. -/
def seen (fs : FileSystem) (c : Cascade) (dir : Path) : CacheEntry :=
  if (c.entry dir).isUnknown then held fs dir else c.entry dir

/-- The directories up to and including the first one with a configuration. -/
def upToFound (seen : Path → CacheEntry) (dirs : List Path) : List Path :=
  dirs.take (dirs.findIdx (fun dir => (seen dir).config?.isSome) + 1)

/-- The directories that a search for the rules of a path goes through. -/
def walk (fs : FileSystem) (c : Cascade) (p : Path) : List Path := upToFound (c.seen fs) (c.candidates fs p)

/-- Those of them about which nothing is known. -/
def unread (fs : FileSystem) (c : Cascade) (p : Path) : List Path :=
  (c.walk fs p).filter fun dir => (c.entry dir).isUnknown

/-- `c'` is `c` with the rule files of some unknown directories read, each once and in this order, and nothing else
changed. -/
structure Fills (fs : FileSystem) (c : Cascade) (dirs : List Path) (c' : Cascade) : Prop where
  distinct : (dirs.map components).Nodup
  unknown : ∀ dir ∈ dirs, (c.entry dir).isUnknown
  workingDir : c'.workingDir = c.workingDir
  editorOverride : c'.editorOverride = c.editorOverride
  reads : c'.reads = (dirs.map ruleFile).reverse ++ c.reads
  filled : ∀ dir ∈ dirs, ∃ config?, held fs dir = .ofConfig? config? ∧
    c'.cache.get? dir.components = some (.ofConfig? config?)
  kept : ∀ ks, ks ∉ dirs.map components → c'.cache.get? ks = c.cache.get? ks

theorem upToFound_cons (seen : Path → CacheEntry) (dir : Path) (dirs : List Path) :
    upToFound seen (dir :: dirs) = dir :: if (seen dir).config?.isSome then [] else upToFound seen dirs := by
  unfold upToFound
  rw [List.findIdx_cons]
  cases (seen dir).config?.isSome <;> simp

theorem upToFound_subset {seen : Path → CacheEntry} {dirs : List Path} {dir : Path} (h : dir ∈ upToFound seen dirs) :
    dir ∈ dirs := List.mem_of_mem_take h

theorem upToFound_congr {seen seen' : Path → CacheEntry} {dirs : List Path}
    (h : ∀ dir ∈ upToFound seen dirs, seen' dir = seen dir) : upToFound seen' dirs = upToFound seen dirs := by
  induction dirs with
  | nil => rfl
  | cons dir dirs ih =>
    rw [upToFound_cons] at h
    have hdir := h dir List.mem_cons_self
    rw [upToFound_cons, upToFound_cons, hdir]
    split_ifs at h ⊢ with hfound
    · rfl
    · rw [ih fun d hd => h d (List.mem_cons_of_mem dir hd)]

/-- The first directory with a configuration is the last one gone through. -/
theorem findSome?_upToFound (seen : Path → CacheEntry) (dirs : List Path) :
    (upToFound seen dirs).findSome? (fun dir => (seen dir).config?) =
      dirs.findSome? fun dir => (seen dir).config? := by
  induction dirs with
  | nil => rfl
  | cons dir dirs ih =>
    rw [upToFound_cons, List.findSome?_cons, List.findSome?_cons]
    cases hdir : (seen dir).config? with
    | none => simpa using ih
    | some config => rfl

theorem Fills.nil (fs : FileSystem) (c : Cascade) : Fills fs c [] c where
  distinct := .nil
  unknown _ h := absurd h List.not_mem_nil
  workingDir := rfl
  editorOverride := rfl
  reads := rfl
  filled _ h := absurd h List.not_mem_nil
  kept _ _ := rfl

/-- Nothing read is nothing changed. -/
theorem Fills.eq_of_nil (h : Fills fs c [] c') : c' = c := by
  have hcache : c'.cache = c.cache := SortedMap.ext_get? fun ks => h.kept ks List.not_mem_nil
  have hwd := h.workingDir
  have hoverride := h.editorOverride
  have hreads := h.reads
  cases c
  cases c'
  simp_all

theorem Fills.entry_eq {dirs : List Path} (h : Fills fs c dirs c') {dir : Path}
    (hdir : dir.components ∉ dirs.map components) : c'.entry dir = c.entry dir := by
  rw [entry, entry, h.kept _ hdir]

theorem Fills.append {dirs dirs' : List Path} (h : Fills fs c dirs c') (h' : Fills fs c' dirs' c'')
    (hdisj : ∀ dir ∈ dirs, dir.components ∉ dirs'.map components) : Fills fs c (dirs ++ dirs') c'' where
  distinct := by
    rw [List.map_append]
    refine h.distinct.append h'.distinct fun ks hks hks' => ?_
    obtain ⟨dir, hdir, rfl⟩ := List.mem_map.mp hks
    exact hdisj dir hdir hks'
  unknown dir hdir := by
    rcases List.mem_append.mp hdir with hdir | hdir
    · exact h.unknown dir hdir
    · have hother : dir.components ∉ dirs.map components := fun hmem => by
        obtain ⟨d, hd, heq⟩ := List.mem_map.mp hmem
        exact hdisj d hd (heq ▸ List.mem_map_of_mem hdir)
      rw [← h.entry_eq hother]
      exact h'.unknown dir hdir
  workingDir := h'.workingDir.trans h.workingDir
  editorOverride := h'.editorOverride.trans h.editorOverride
  reads := by rw [h'.reads, h.reads, List.map_append, List.reverse_append, List.append_assoc]
  filled dir hdir := by
    rcases List.mem_append.mp hdir with hdir | hdir
    · rw [h'.kept _ (hdisj dir hdir)]
      exact h.filled dir hdir
    · exact h'.filled dir hdir
  kept ks hks := by
    rw [List.map_append, List.mem_append, not_or] at hks
    rw [h'.kept ks hks.2, h.kept ks hks.1]

theorem fills_of_unknown (fs : FileSystem) {c : Cascade} {dir : Path} (h : c.entry dir = .unknown) :
    Fills fs c [dir] (c.lookUp fs dir).value.2 := by
  rw [value_lookUp_of_unknown h]
  refine ⟨List.nodup_singleton _, fun d hd => ?_, rfl, rfl, rfl, fun d hd => ?_, fun ks hks => ?_⟩
  · rw [List.mem_singleton.mp hd, h]
    rfl
  · obtain rfl := List.mem_singleton.mp hd
    exact ⟨_, rfl, SortedMap.get?_insert_self ..⟩
  · exact SortedMap.get?_insert_of_ne _ _ fun heq => hks (by simp [heq])

/-- A look-up reads the rule file of an unknown directory, and nothing else. -/
theorem lookUp_fills (fs : FileSystem) (c : Cascade) (dir : Path) :
    (c.lookUp fs dir).value.1 = c.seen fs dir ∧
      Fills fs c ([dir].filter fun d => (c.entry d).isUnknown) (c.lookUp fs dir).value.2 := by
  have hread : c.entry dir = .unknown → Fills fs c [dir] (c.lookUp fs dir).value.2 := fills_of_unknown fs
  rw [seen, List.filter_cons, List.filter_nil]
  cases hentry : c.entry dir with
  | missing | found =>
    rw [value_lookUp_of_known (by simp [hentry]), hentry]
    exact ⟨rfl, .nil fs c⟩
  | unknown =>
    refine ⟨?_, hread hentry⟩
    rw [value_lookUp_of_unknown hentry]
    rfl

theorem value_findIn_cons (fs : FileSystem) (c : Cascade) (dir : Path) (dirs : List Path) :
    (c.findIn fs (dir :: dirs)).value = if (c.seen fs dir).config?.isSome
      then ((c.seen fs dir).config?, (c.lookUp fs dir).value.2)
      else ((c.lookUp fs dir).value.2.findIn fs dirs).value := by
  have hvalue := (lookUp_fills fs c dir).1
  rw [findIn, Logged.value_bind, ← hvalue]
  cases (c.lookUp fs dir).value with
  | mk e c1 => cases e <;> rfl

/-- Of some directories, those that a search reads. -/
def unreadIn (fs : FileSystem) (c : Cascade) (dirs : List Path) : List Path :=
  (upToFound (c.seen fs) dirs).filter fun dir => (c.entry dir).isUnknown

theorem unreadIn_cons (fs : FileSystem) (c : Cascade) (dir : Path) (dirs : List Path) :
    c.unreadIn fs (dir :: dirs) = [dir].filter (fun d => (c.entry d).isUnknown) ++
      if (c.seen fs dir).config?.isSome then [] else c.unreadIn fs dirs := by
  rw [unreadIn, upToFound_cons, ← List.singleton_append, List.filter_append]
  split_ifs <;> rfl

theorem seen_congr {dir : Path} (h : c'.entry dir = c.entry dir) : c'.seen fs dir = c.seen fs dir := by
  rw [seen, seen, h]

theorem unreadIn_congr {dirs : List Path} (h : ∀ dir ∈ dirs, c'.entry dir = c.entry dir) :
    c'.unreadIn fs dirs = c.unreadIn fs dirs := by
  have hwalk : upToFound (c'.seen fs) dirs = upToFound (c.seen fs) dirs :=
    upToFound_congr fun dir hdir => seen_congr (h dir (upToFound_subset hdir))
  rw [unreadIn, hwalk]
  exact List.filter_congr fun dir hdir => by rw [h dir (upToFound_subset hdir)]

theorem mem_of_mem_unreadIn {dirs : List Path} {dir : Path} (h : dir ∈ c.unreadIn fs dirs) : dir ∈ dirs :=
  upToFound_subset (List.mem_filter.mp h).1

/-- A search through directories that differ reads those that are unknown up to the first one with a configuration. -/
theorem findIn_fills {dirs : List Path} (hnodup : (dirs.map components).Nodup) :
    (c.findIn fs dirs).value.1 = dirs.findSome? (fun dir => (c.seen fs dir).config?) ∧
      Fills fs c (c.unreadIn fs dirs) (c.findIn fs dirs).value.2 := by
  induction dirs generalizing c with
  | nil => exact ⟨rfl, .nil fs c⟩
  | cons dir dirs ih =>
    obtain ⟨hhead, htail⟩ := List.nodup_cons.mp hnodup
    have hlook := (lookUp_fills fs c dir).2
    rw [value_findIn_cons, List.findSome?_cons, unreadIn_cons]
    generalize (c.lookUp fs dir).value.2 = c1 at hlook ⊢
    cases hconfig : (c.seen fs dir).config? with
    | some config => exact ⟨rfl, (List.append_nil _).symm ▸ hlook⟩
    | none =>
      -- the head differs from the other directories, so these are seen as before
      have hother : ∀ d ∈ [dir].filter (fun d => (c.entry d).isUnknown), ∀ d' ∈ dirs, d'.components ≠ d.components := by
        intro d hd d' hd' heq
        obtain rfl := List.mem_singleton.mp (List.mem_filter.mp hd).1
        exact hhead (heq ▸ List.mem_map_of_mem hd')
      have hentry : ∀ d ∈ dirs, c1.entry d = c.entry d := fun d hd => hlook.entry_eq fun hmem => by
        obtain ⟨d', hd', heq⟩ := List.mem_map.mp hmem
        exact hother d' hd' d hd heq.symm
      obtain ⟨hvalue, hfills⟩ := ih (c := c1) htail
      rw [unreadIn_congr hentry] at hfills
      refine ⟨hvalue.trans ?_, hlook.append hfills fun d hd hmem => ?_⟩
      · exact findSome?_congr fun d hd => by rw [seen_congr (hentry d hd)]
      · obtain ⟨d', hd', heq⟩ := List.mem_map.mp hmem
        exact hother d hd d' (mem_of_mem_unreadIn hd') heq

theorem findOverride_fills (fs : FileSystem) (c : Cascade) (p : Path) :
    (c.findOverride fs p).value.1 = (c.candidates fs p).findSome? (fun dir => (c.seen fs dir).config?) ∧
      Fills fs c (c.unread fs p) (c.findOverride fs p).value.2 :=
  findIn_fills (nodup_components_candidates fs c p)

theorem nodup_components_walk (fs : FileSystem) (c : Cascade) (p : Path) : ((c.walk fs p).map components).Nodup :=
  (nodup_components_candidates fs c p).sublist ((List.take_sublist _ _).map _)

theorem state_resolve (fs : FileSystem) (c : Cascade) (p : Path) :
    (c.resolve fs p).value.2 = if c.editorOverride.isEmpty then (c.findOverride fs p).value.2 else c := by
  rw [resolve]
  split_ifs
  · rw [Logged.value_bind]
    cases (c.findOverride fs p).value with
    | mk found? c1 => cases found? <;> rfl
  · rfl

/-! ## Runs -/

/-- What a step does to a cascade.  The files are those that the step meets, so changing them does nothing here. -/
def step (fs : FileSystem) (c : Cascade) : Step → Cascade
  | .resolve p => (c.resolve fs p).value.2
  | .findOverride p => (c.findOverride fs p).value.2
  | .invalidate p => (c.invalidate p).value
  | .didChangeFiles ps => (c.didChangeFiles ps).value
  | .setEditorOverride rules => c.setEditorOverride rules
  | .addFile _ _ | .removeFile _ => c

/-- The cascade after some steps, each with the files that it meets. -/
def run (c : Cascade) (history : List (FileSystem × Step)) : Cascade := history.foldl (fun c s => c.step s.1 s.2) c

theorem run_concat (c : Cascade) (history : List (FileSystem × Step)) (s : FileSystem × Step) :
    c.run (history ++ [s]) = (c.run history).step s.1 s.2 := by
  rw [run, List.foldl_concat]
  rfl

/-- A step reads some unknown directories, takes notices, or sets the rules of the editor. -/
theorem step_cases (fs : FileSystem) (c : Cascade) (s : Step) :
    (s.notices = [] ∧ ∃ dirs, Fills fs c dirs (c.step fs s)) ∨
      c.step fs s = (c.didChangeFiles s.notices).value ∨
      s.notices = [] ∧ ∃ rules, c.step fs s = c.setEditorOverride rules := by
  cases s with
  | resolve p =>
    refine .inl ⟨rfl, ?_⟩
    show ∃ dirs, Fills fs c dirs (c.resolve fs p).value.2
    rw [state_resolve]
    split_ifs
    · exact ⟨_, (findOverride_fills fs c p).2⟩
    · exact ⟨_, .nil fs c⟩
  | findOverride p => exact .inl ⟨rfl, _, (findOverride_fills fs c p).2⟩
  | invalidate | didChangeFiles => exact .inr (.inl rfl)
  | setEditorOverride rules => exact .inr (.inr ⟨rfl, rules, rfl⟩)
  | addFile | removeFile => exact .inl ⟨rfl, _, .nil fs c⟩

theorem workingDir_step (fs : FileSystem) (c : Cascade) (s : Step) : (c.step fs s).workingDir = c.workingDir := by
  obtain ⟨-, dirs, h⟩ | h | ⟨-, rules, h⟩ := step_cases fs c s
  · exact h.workingDir
  · rw [h, workingDir_didChangeFiles]
  · rw [h]
    rfl

theorem workingDir_run (c : Cascade) (history : List (FileSystem × Step)) :
    (c.run history).workingDir = c.workingDir := by
  induction history using List.reverseRecOn with
  | nil => rfl
  | append_singleton history s ih => rw [run_concat, workingDir_step, ih]

/-! ## Walking again -/

theorem entry_congr (c : Cascade) {dir dir' : Path} (h : dir'.components = dir.components) :
    c.entry dir' = c.entry dir := by
  rw [entry, entry, h]

/-- Nothing that is known is forgotten or replaced. -/
def KeepsKnown (c c' : Cascade) : Prop := ∀ dir, (c.entry dir).isUnknown = false → c'.entry dir = c.entry dir

theorem Fills.keepsKnown {dirs : List Path} (h : Fills fs c dirs c') : KeepsKnown c c' := fun dir hdir => by
  refine h.entry_eq fun hmem => ?_
  obtain ⟨d, hd, heq⟩ := List.mem_map.mp hmem
  rw [← entry_congr c heq, h.unknown d hd] at hdir
  cases hdir

theorem keepsKnown_step (fs : FileSystem) (c : Cascade) {s : Step} (hs : s.notices = []) :
    KeepsKnown c (c.step fs s) := by
  obtain ⟨-, dirs, h⟩ | h | ⟨-, rules, h⟩ := step_cases fs c s
  · exact h.keepsKnown
  · rw [h, hs]
    exact fun _ _ => rfl
  · rw [h]
    exact fun _ _ => rfl

theorem keepsKnown_run (c : Cascade) {history : List (FileSystem × Step)} (h : ∀ s ∈ history, s.2.notices = []) :
    KeepsKnown c (c.run history) := by
  induction history using List.reverseRecOn with
  | nil => exact fun _ _ => rfl
  | append_singleton history s ih =>
    intro dir hdir
    have hbefore := ih (fun s hs => h s (List.mem_append_left _ hs)) dir hdir
    have hlast := keepsKnown_step s.1 (c.run history) (h s (by simp)) dir (by rw [hbefore, hdir])
    rw [run_concat, hlast, hbefore]

theorem isUnknown_ofConfig? (config? : Option RuleConfig) : (CacheEntry.ofConfig? config?).isUnknown = false := by
  cases config? <;> rfl

/-- After a search, what it saw on its walk is known. -/
theorem entry_of_mem_walk {dir : Path} (hdir : dir ∈ c.walk fs p) :
    (c.findOverride fs p).value.2.entry dir = c.seen fs dir ∧
      ((c.findOverride fs p).value.2.entry dir).isUnknown = false := by
  cases hunknown : (c.entry dir).isUnknown with
  | true =>
    obtain ⟨config?, hread, hget⟩ :=
      (findOverride_fills fs c p).2.filled dir (List.mem_filter.mpr ⟨hdir, hunknown⟩)
    rw [entry, hget, seen, if_pos hunknown, hread]
    exact ⟨rfl, isUnknown_ofConfig? config?⟩
  | false =>
    have hkept := (findOverride_fills fs c p).2.keepsKnown dir hunknown
    rw [hkept, seen, if_neg (by simp [hunknown])]
    exact ⟨rfl, hunknown⟩

/-- A second search reads nothing, remembers nothing and finds the same, whatever happened to the files. -/
theorem findOverride_again (fs fs' : FileSystem) (c : Cascade) (p : Path) {between : List (FileSystem × Step)}
    (hquiet : ∀ s ∈ between, s.2.notices = [])
    (hkind : fs'.isDirectory (c.absolute p) = fs.isDirectory (c.absolute p)) :
    (((c.findOverride fs p).value.2.run between).findOverride fs' p).value =
      ((c.findOverride fs p).value.1, (c.findOverride fs p).value.2.run between) := by
  have hfirst := findOverride_fills fs c p
  have hknown := keepsKnown_run (c.findOverride fs p).value.2 hquiet
  have hwd := workingDir_run (c.findOverride fs p).value.2 between
  rw [hfirst.2.workingDir] at hwd
  have hwalked : ∀ dir ∈ c.walk fs p, ((c.findOverride fs p).value.2.run between).entry dir = c.seen fs dir ∧
      (((c.findOverride fs p).value.2.run between).entry dir).isUnknown = false := fun dir hdir => by
    obtain ⟨hentry, hunknown⟩ := entry_of_mem_walk hdir
    rw [hknown dir hunknown]
    exact ⟨hentry, hunknown⟩
  generalize (c.findOverride fs p).value.2.run between = again at hwalked hwd ⊢
  have hcand : again.candidates fs' p = c.candidates fs p := by
    have habs : again.absolute p = c.absolute p := by rw [absolute, absolute, hwd]
    rw [candidates, candidates, habs, hkind]
  have hseen : ∀ dir ∈ c.walk fs p, again.seen fs' dir = c.seen fs dir := fun dir hdir => by
    rw [seen, if_neg (by simp [(hwalked dir hdir).2]), (hwalked dir hdir).1]
  have hwalk : again.walk fs' p = c.walk fs p := by
    rw [walk, hcand]
    exact upToFound_congr hseen
  have hunread : again.unread fs' p = [] := by
    rw [unread, hwalk]
    exact List.filter_eq_nil_iff.mpr fun dir hdir => by simp [(hwalked dir hdir).2]
  obtain ⟨hvalue, hfills⟩ := findOverride_fills fs' again p
  rw [hunread] at hfills
  refine Prod.ext ?_ hfills.eq_of_nil
  rw [hvalue, hfirst.1, ← findSome?_upToFound (again.seen fs'), ← findSome?_upToFound (c.seen fs)]
  show (again.walk fs' p).findSome? _ = (c.walk fs p).findSome? _
  rw [hwalk]
  exact findSome?_congr fun dir hdir => by rw [hseen dir hdir]

/-! ## Counting reads -/

/-- How often the rule file of a directory has been read. -/
def readsOf (dir : Path) (c : Cascade) : ℕ := c.reads.countP fun file => file.same (ruleFile dir)

/-- The reads of a rule file, and the one that is due while its directory is unknown. -/
def budget (dir : Path) (c : Cascade) : ℕ := readsOf dir c + if (c.entry dir).isUnknown then 1 else 0

/-- How many of some notices are about a directory, seen from a working directory. -/
def noticesOf (wd : Option Path) (dir : Path) (ps : List Path) : ℕ :=
  ps.countP fun p => dir.same (notified ((Cascade.new wd).absolute p))

theorem countP_ruleFile (dir : Path) (dirs : List Path) :
    (dirs.map ruleFile).countP (fun file => file.same (ruleFile dir)) =
      (dirs.map components).count dir.components := by
  rw [List.countP_map, List.count, List.countP_map]
  refine List.countP_congr fun d _ => ?_
  simp [same, components_ruleFile]

/-- Reading uses up what is due. -/
theorem Fills.budget_le {dirs : List Path} (h : Fills fs c dirs c') (dir : Path) : budget dir c' ≤ budget dir c := by
  have hreads : readsOf dir c' = (dirs.map components).count dir.components + readsOf dir c := by
    rw [readsOf, h.reads, List.countP_append, List.countP_reverse, countP_ruleFile, readsOf]
  rw [budget, budget, hreads]
  by_cases hmem : dir.components ∈ dirs.map components
  · have hcount := List.nodup_iff_count_le_one.mp h.distinct dir.components
    obtain ⟨d, hd, heq⟩ := List.mem_map.mp hmem
    obtain ⟨config?, -, hget⟩ := h.filled d hd
    have hafter : (c'.entry dir).isUnknown = false := by
      rw [entry, ← heq, hget]
      exact isUnknown_ofConfig? config?
    have hbefore : (c.entry dir).isUnknown := by
      rw [← entry_congr c heq]
      exact h.unknown d hd
    rw [hafter, hbefore]
    simp only [Bool.false_eq_true, if_false, if_true]
    omega
  · rw [h.entry_eq hmem, List.count_eq_zero.mpr hmem, Nat.zero_add]

theorem budget_didChangeFiles_le {wd : Option Path} (hwd : c.workingDir = wd) (ps : List Path) (dir : Path) :
    budget dir (c.didChangeFiles ps).value ≤ budget dir c + noticesOf wd dir ps := by
  induction ps generalizing c with
  | nil => exact le_refl _
  | cons p ps ih =>
    have hrest := ih ((workingDir_invalidate c p).trans hwd)
    have habs : c.absolute p = (Cascade.new wd).absolute p := by rw [absolute, hwd]; rfl
    have hfirst : budget dir (c.invalidate p).value ≤
        budget dir c + if dir.same (notified ((Cascade.new wd).absolute p)) then 1 else 0 := by
      rw [budget, budget, readsOf, readsOf, reads_invalidate, entry_invalidate, habs]
      by_cases hsame : dir.components = (notified ((Cascade.new wd).absolute p)).components
      · have hnamed : dir.same (notified ((Cascade.new wd).absolute p)) := beq_iff_eq.mpr hsame
        rw [if_pos hsame, if_pos hnamed]
        exact Nat.add_le_add_right (Nat.le_add_right _ _) 1
      · rw [if_neg hsame]
        exact Nat.le_add_right _ _
    rw [noticesOf, List.countP_cons, ← noticesOf]
    show budget dir ((c.invalidate p).value.didChangeFiles ps).value ≤ _
    omega

theorem budget_step_le {wd : Option Path} (hwd : c.workingDir = wd) (fs : FileSystem) (s : Step) (dir : Path) :
    budget dir (c.step fs s) ≤ budget dir c + noticesOf wd dir s.notices := by
  obtain ⟨-, dirs, h⟩ | h | ⟨-, rules, h⟩ := step_cases fs c s
  · exact (h.budget_le dir).trans (Nat.le_add_right _ _)
  · rw [h]
    exact budget_didChangeFiles_le hwd s.notices dir
  · rw [h]
    exact Nat.le_add_right _ _

theorem budget_run_le (c : Cascade) (history : List (FileSystem × Step)) (dir : Path) :
    budget dir (c.run history) ≤
      budget dir c + noticesOf c.workingDir dir (history.flatMap fun s => s.2.notices) := by
  induction history using List.reverseRecOn with
  | nil => exact le_refl _
  | append_singleton history s ih =>
    have hstep := budget_step_le (workingDir_run c history) s.1 s.2 dir
    rw [run_concat, List.flatMap_append, List.flatMap_singleton, noticesOf, List.countP_append, ← noticesOf, ← noticesOf]
    omega

/-- **Disk accounting.**  A search reads the rule file of every unknown directory that it goes through, once, and
changes their entries only.  Without a notification a second one reads nothing and finds the same.  Resolving under
the editor's rules reads nothing.  In a run the rule file of a directory is read at most once more than notices name
it. -/
theorem reads_accounted (fs : FileSystem) (c : Cascade) (p : Path) :
    ((c.walk fs p).map components).Nodup ∧
    (c.findOverride fs p).value.1 = (c.candidates fs p).findSome? (fun dir => (c.seen fs dir).config?) ∧
    Fills fs c (c.unread fs p) (c.findOverride fs p).value.2 ∧
    (∀ (fs' : FileSystem) (between : List (FileSystem × Step)), (∀ s ∈ between, s.2.notices = []) →
      fs'.isDirectory (c.absolute p) = fs.isDirectory (c.absolute p) →
      (((c.findOverride fs p).value.2.run between).findOverride fs' p).value =
        ((c.findOverride fs p).value.1, (c.findOverride fs p).value.2.run between)) ∧
    (¬ c.editorOverride.isEmpty → (c.resolve fs p).value.2 = c) ∧
    ∀ (wd : Option Path) (history : List (FileSystem × Step)) (dir : Path),
      readsOf dir ((Cascade.new wd).run history) ≤
        1 + noticesOf wd dir (history.flatMap fun s => s.2.notices) := by
  obtain ⟨hvalue, hfills⟩ := findOverride_fills fs c p
  refine ⟨nodup_components_walk fs c p, hvalue, hfills, fun fs' between hquiet hkind => ?_, fun hrules => ?_,
    fun wd history dir => ?_⟩
  · exact findOverride_again fs fs' c p hquiet hkind
  · rw [state_resolve, if_neg hrules]
  · have hrun := budget_run_le (Cascade.new wd) history dir
    have hnew : budget dir (Cascade.new wd) = 1 := rfl
    rw [hnew] at hrun
    exact (Nat.le_add_right _ _).trans hrun

/-- A page one directory below a rule file that allows lines of a length. -/
def deepShop (limit : String) : FileSystem :=
  let files : MemoryFiles := .ofList [(components ⟨"/shop/cart/page.isml"⟩, ""),
    (components ⟨"/shop/.htmlhintrc"⟩, "\x7b\"max-length\": " ++ limit ++ "\x7d")]
  files.fileSystem

/-- Between two look-ups of the page the rules of the editor come and go, and another directory is walked through. -/
def quietSteps : List (FileSystem × Step) :=
  [(deepShop "90", .setEditorOverride (.ofList [("max-length", .bool true)])), (deepShop "90", .resolve ⟨"cart/page.isml"⟩),
    (deepShop "90", .setEditorOverride .empty), (deepShop "90", .findOverride ⟨"/other/page.isml"⟩)]

theorem reads_accounted_deepShop :
    let c := Cascade.new (some ⟨"/shop"⟩)
    let first := (c.findOverride (deepShop "80") ⟨"cart/page.isml"⟩).value
    let edited := first.2.setEditorOverride (.ofList [("max-length", .bool true)])
    first.2.reads = [⟨"/shop/.htmlhintrc"⟩, ⟨"/shop/cart/.htmlhintrc"⟩] ∧ limitOf first.1 = some 80 ∧
    (∀ s ∈ quietSteps, s.2.notices = []) ∧
    ((first.2.run quietSteps).findOverride (deepShop "100") ⟨"cart/page.isml"⟩).value =
      (first.1, first.2.run quietSteps) ∧
    ¬ edited.editorOverride.isEmpty ∧ (edited.resolve (deepShop "100") ⟨"cart/page.isml"⟩).value.2 = edited := by
  intro c first edited
  have hquiet : ∀ s ∈ quietSteps, s.2.notices = [] := by decide
  have hkind : (deepShop "100").isDirectory (c.absolute ⟨"cart/page.isml"⟩) =
      (deepShop "80").isDirectory (c.absolute ⟨"cart/page.isml"⟩) := by decide +kernel
  have hrules : ¬ edited.editorOverride.isEmpty := by decide
  obtain ⟨-, -, -, hagain, -, -⟩ := reads_accounted (deepShop "80") c ⟨"cart/page.isml"⟩
  obtain ⟨-, -, -, -, hresolve, -⟩ := reads_accounted (deepShop "100") edited ⟨"cart/page.isml"⟩
  exact ⟨by decide +kernel, by decide +kernel, hquiet, hagain _ _ hquiet hkind, hrules, hresolve hrules⟩

end Cascade

end TagLint

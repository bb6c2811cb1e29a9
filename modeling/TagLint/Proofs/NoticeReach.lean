import TagLint.Proofs.CascadeHistory
import TagLint.Proofs.PathSteps
import TagLint.Rule.MaxLength

/-!
# Which directory a notification reaches

A look-up starts in the directory above a file, a notification of the rule file beside it forgets the parent of that
rule file.  The two agree on every path with more than one component.

* `components_absolute_beside`: seen from any working directory, a file and the rule file beside it differ in their
  last component only.
* `findIn_head`: what is unknown about the first directory is read anew.
* `notice_reaches_first_candidate`: a notification makes the first directory of a look-up unknown, except when the
  path is a lone name even as seen from the working directory: then the look-up starts in `.`, which the
  notification does not reach.
-/

namespace TagLint.Cascade

open TagLint.Path

variable {fs : FileSystem} {c : Cascade} {p q : Path} {n : String} {ks : List Component}

/-! ## A file and the rule file beside it -/

/-- The path of a file with the name of a rule file in place of its own. -/
def ruleFileBeside (p : Path) : Path := ruleFile (p.parent?.getD p)

theorem exists_components_eq_concat (h : p.fileName? = some n) : ∃ ks, p.components = ks ++ [.name n] :=
  List.getLast?_eq_some_iff.mp (fileName?_eq_some_iff.mp h)

theorem components_ruleFileBeside (h : p.components = ks ++ [.name n]) :
    (ruleFileBeside p).components = ks ++ [.name ruleFileName] := by
  have hparent := map_components_parent? p
  have htop : ¬ (p.components = [] ∨ p.components = [.root]) := by
    rintro (hc | hc) <;> simp [h, List.append_eq_singleton_iff] at hc
  rw [if_neg htop] at hparent
  obtain ⟨q, hq, hcomps⟩ := Option.map_eq_some_iff.mp hparent
  rw [ruleFileBeside, hq, Option.getD_some, components_ruleFile, hcomps, h, List.dropLast_concat]

theorem isAbsolute_concat_name (h : p.components = ks ++ [.name n]) :
    p.isAbsolute ↔ ks.head? = some .root := by
  rw [isAbsolute_iff, h]
  cases ks <;> simp

/-- Seen from the working directory a path keeps its last component, and the ones before it do not depend on it. -/
theorem components_absolute_concat (c : Cascade) (m : String)
    (hp : p.components = ks ++ [.name n]) (hq : q.components = ks ++ [.name m]) :
    ∃ js, (c.absolute p).components = js ++ [.name n] ∧ (c.absolute q).components = js ++ [.name m] := by
  have habs : p.isAbsolute ↔ q.isAbsolute := (isAbsolute_concat_name hp).trans (isAbsolute_concat_name hq).symm
  cases hdir : c.workingDir with
  | none => exact ⟨ks, by simpa [absolute, hdir] using hp, by simpa [absolute, hdir] using hq⟩
  | some dir =>
    have hjoin : ∀ r, c.absolute r = dir.join r := fun r => by rw [absolute, hdir]
    rw [hjoin, hjoin]
    by_cases hpa : p.isAbsolute
    · rw [join_of_isAbsolute hpa, join_of_isAbsolute (habs.mp hpa)]
      exact ⟨ks, hp, hq⟩
    · by_cases hempty : dir.text = ""
      · rw [join_of_text_eq_empty hempty, join_of_text_eq_empty hempty]
        exact ⟨ks, hp, hq⟩
      · rw [components_join_eq hempty hpa, components_join_eq hempty (mt habs.mpr hpa), hp, hq]
        exact ⟨dir.components ++ ks.filter Component.isStep, by simp [Component.isStep], by simp [Component.isStep]⟩

/-- Seen from any working directory, a file and the rule file beside it differ in their last component only. -/
theorem components_absolute_beside (c : Cascade) (h : p.fileName? = some n) :
    ∃ js, (c.absolute p).components = js ++ [.name n] ∧
      (c.absolute (ruleFileBeside p)).components = js ++ [.name ruleFileName] := by
  obtain ⟨ks, hks⟩ := exists_components_eq_concat h
  exact components_absolute_concat c ruleFileName hks (components_ruleFileBeside hks)

/-- A look-up of a file starts in its directory, or in `.` when the file is a lone name. -/
theorem exists_candidates_eq (h : (c.absolute p).components = ks ++ [.name n])
    (hfile : fs.isDirectory (c.absolute p) = false) :
    ∃ dir rest, c.candidates fs p = dir :: rest ∧ dir.components = if ks = [] then [.here] else ks := by
  have habove := map_components_above?_eq (c.absolute p)
  have htop : ¬ isTop (c.absolute p).components := by
    rintro (hc | hc | hc) <;> simp [h, List.append_eq_singleton_iff] at hc
  rw [if_neg htop, h, List.dropLast_concat] at habove
  obtain ⟨dir, hdir, hcomps⟩ := Option.map_eq_some_iff.mp habove
  obtain ⟨rest, hrest⟩ : ∃ rest, dir.upward = dir :: rest := ⟨_, rfl⟩
  exact ⟨dir, rest, by simp [candidates, hfile, hdir, hrest], hcomps⟩

/-! ## Notifications -/

theorem entry_invalidate (c : Cascade) (p dir : Path) :
    (c.invalidate p).value.entry dir =
      if dir.components = (notified (c.absolute p)).components then .unknown else c.entry dir := by
  rw [invalidate]
  by_cases hc : c.cache.contains (notified (c.absolute p)).components
  · rw [if_pos hc]
    show (SortedMap.get? (c.cache.insert _ _) _).getD _ = _
    rw [SortedMap.get?_insert]
    split_ifs
    · rfl
    · rfl
  · rw [if_neg hc]
    show c.entry dir = _
    split_ifs with hdir
    · rw [SortedMap.contains, Option.not_isSome_iff_eq_none, ← hdir] at hc
      rw [entry, hc]
      rfl
    · rfl

theorem reads_invalidate (c : Cascade) (p : Path) : (c.invalidate p).value.reads = c.reads := by
  rw [invalidate]
  split_ifs <;> rfl

theorem reads_didChangeFiles (c : Cascade) (ps : List Path) : (c.didChangeFiles ps).value.reads = c.reads := by
  induction ps generalizing c with
  | nil => rfl
  | cons p ps ih => exact (ih _).trans (reads_invalidate c p)

/-- Notifications make nothing known. -/
theorem entry_didChangeFiles_of_unknown {dir : Path} (ps : List Path) (h : c.entry dir = .unknown) :
    (c.didChangeFiles ps).value.entry dir = .unknown := by
  induction ps generalizing c with
  | nil => exact h
  | cons p ps ih => exact ih (by rw [entry_invalidate, h, ite_self])

theorem entry_didChangeFiles_of_mem {dir : Path} {ps : List Path} (hmem : p ∈ ps)
    (hdir : dir.components = (notified (c.absolute p)).components) :
    (c.didChangeFiles ps).value.entry dir = .unknown := by
  induction ps generalizing c with
  | nil => cases hmem
  | cons q ps ih =>
    rcases List.mem_cons.mp hmem with rfl | hmem
    · exact entry_didChangeFiles_of_unknown ps (by rw [entry_invalidate, if_pos hdir])
    · exact ih hmem (by rw [hdir, absolute, absolute, workingDir_invalidate])

/-- The rule file beside a file is taken to be about the directory of that file. -/
theorem components_notified_beside {js : List Component}
    (h : (c.absolute (ruleFileBeside p)).components = js ++ [.name ruleFileName]) :
    (notified (c.absolute (ruleFileBeside p))).components = js := by
  have hname : (c.absolute (ruleFileBeside p)).fileName? = some ruleFileName := by
    rw [fileName?_eq_some_iff, h, List.getLast?_concat]
  rw [components_notified hname, h, List.dropLast_concat]

/-! ## Reading anew -/

theorem exists_reads_findIn (fs : FileSystem) (c : Cascade) (dirs : List Path) :
    ∃ later, (c.findIn fs dirs).value.2.reads = later ++ c.reads := by
  induction dirs generalizing c with
  | nil => exact ⟨[], rfl⟩
  | cons dir dirs ih =>
    have hlook : ∃ later, (c.lookUp fs dir).value.2.reads = later ++ c.reads := by
      cases hentry : c.entry dir with
      | unknown => exact ⟨[ruleFile dir], by rw [value_lookUp_of_unknown hentry]; rfl⟩
      | missing | found => exact ⟨[], by rw [value_lookUp_of_known (by simp [hentry])]; rfl⟩
    obtain ⟨later, hlater⟩ := hlook
    rw [findIn, Logged.value_bind]
    cases hv : (c.lookUp fs dir).value with
    | mk e c' =>
      rw [hv] at hlater
      cases e with
      | found config => exact ⟨later, hlater⟩
      | unknown | missing =>
        obtain ⟨more, hmore⟩ := ih c'
        exact ⟨more ++ later, by rw [List.append_assoc, ← hlater]; exact hmore⟩

/-- What is unknown about the first directory is read anew, and counts if it is a configuration. -/
theorem findIn_head {dir : Path} (fs : FileSystem) (dirs : List Path) (h : c.entry dir = .unknown) :
    (∃ later, (c.findIn fs (dir :: dirs)).value.2.reads = later ++ ruleFile dir :: c.reads) ∧
    ∀ config, held fs dir = .found config → (c.findIn fs (dir :: dirs)).value.1 = some config := by
  rw [findIn, Logged.value_bind, value_lookUp_of_unknown h]
  cases held fs dir with
  | found config => exact ⟨⟨[], rfl⟩, fun config' heq => by rw [CacheEntry.found.inj heq]; rfl⟩
  | unknown | missing =>
    exact ⟨exists_reads_findIn fs _ dirs, fun _ heq => by cases heq⟩

/-- **Reach of notifications.**  A look-up of a file consults the file's directory first.  A notification of the rule
file beside it makes that directory unknown, so that its rule file is read again, unless the path is a lone name even
as seen from the working directory; then the directory stays as it was known. -/
theorem notice_reaches_first_candidate (hname : p.fileName? = some n) (hfile : fs.isDirectory (c.absolute p) = false) :
    ∃ dir rest, c.candidates fs p = dir :: rest ∧
      (c.invalidate (ruleFileBeside p)).value.entry dir =
        (if (c.absolute p).components = [.name n] then c.entry dir else .unknown) ∧
      ((c.absolute p).components ≠ [.name n] → ∀ c',
        (c' = (c.invalidate (ruleFileBeside p)).value ∨
          ∃ notices, ruleFileBeside p ∈ notices ∧ c' = (c.didChangeFiles notices).value) →
        c'.entry dir = .unknown ∧
        (∃ later, (c'.findOverride fs p).value.2.reads = later ++ ruleFile dir :: c.reads) ∧
        ∀ config, held fs dir = .found config →
          (c'.findOverride fs p).value.1 = some config) := by
  obtain ⟨js, hp, hbeside⟩ := components_absolute_beside c hname
  obtain ⟨dir, rest, hcand, hdir⟩ := exists_candidates_eq hp hfile
  have hnotified := components_notified_beside hbeside
  have hlone : (c.absolute p).components = [.name n] ↔ js = [] := by simp [hp]
  refine ⟨dir, rest, hcand, ?_, fun hmore c' hc' => ?_⟩
  · rw [entry_invalidate, hnotified, hdir]
    by_cases hjs : js = []
    · rw [if_pos (hlone.mpr hjs), if_pos hjs, if_neg (by simp [hjs])]
    · rw [if_neg (mt hlone.mp hjs), if_neg hjs, if_pos rfl]
  · have hjs : js ≠ [] := mt hlone.mpr hmore
    have hsame : dir.components = (notified (c.absolute (ruleFileBeside p))).components := by
      rw [hnotified, hdir, if_neg hjs]
    -- one notification is a list of one
    obtain ⟨notices, hmem, rfl⟩ : ∃ notices, ruleFileBeside p ∈ notices ∧ c' = (c.didChangeFiles notices).value :=
      hc'.elim (fun h => ⟨[ruleFileBeside p], List.mem_singleton_self _, h⟩) id
    have hentry := entry_didChangeFiles_of_mem hmem hsame
    have hread := findIn_head fs rest hentry
    rw [← hcand, ← candidates_congr (workingDir_didChangeFiles c notices), reads_didChangeFiles] at hread
    exact ⟨hentry, hread⟩

/-- The files of a shop whose rule file allows lines of a length. -/
def shopFiles (ruleFile limit : String) : MemoryFiles :=
  .ofList [(components ⟨ruleFile⟩, "\x7b\"max-length\": " ++ limit ++ "\x7d")]

/-- The length that a configuration allows. -/
def limitOf (config? : Option RuleConfig) : Option Coord :=
  (config?.bind (·.get? MaxLength.ruleId)).bind (·.positiveInt?)

/-- The page of a shop has been looked up before the rule file of the shop changed. -/
def shopCascade (workingDir : Option Path) (ruleFile : String) : Cascade :=
  ((Cascade.new workingDir).findOverride (shopFiles ruleFile "80").fileSystem ⟨"page.isml"⟩).value.2

theorem notice_reaches_first_candidate_shop :
    let c := shopCascade (some ⟨"shop"⟩) "shop/.htmlhintrc"
    let fs := (shopFiles "shop/.htmlhintrc" "100").fileSystem
    (c.absolute ⟨"page.isml"⟩).components ≠ [.name "page.isml"] ∧
    limitOf (c.findOverride fs ⟨"page.isml"⟩).value.1 = some 80 ∧
    limitOf ((c.invalidate ⟨".htmlhintrc"⟩).value.findOverride fs ⟨"page.isml"⟩).value.1 = some 100 := by
  intro c fs
  have hname : (⟨"page.isml"⟩ : Path).fileName? = some "page.isml" := by decide
  have hfile : fs.isDirectory (c.absolute ⟨"page.isml"⟩) = false := by decide +kernel
  have hmore : (c.absolute ⟨"page.isml"⟩).components ≠ [.name "page.isml"] := by decide +kernel
  have hbeside : ruleFileBeside ⟨"page.isml"⟩ = ⟨".htmlhintrc"⟩ := by decide
  obtain ⟨dir, rest, hcand, -, hreach⟩ := notice_reaches_first_candidate hname hfile
  have hdir : dir = ⟨"shop"⟩ := by
    have hcand' : c.candidates fs ⟨"page.isml"⟩ = [⟨"shop"⟩, ⟨"."⟩] := by decide +kernel
    rw [hcand] at hcand'
    exact (List.cons.inj hcand').1
  obtain ⟨-, -, hfound⟩ := hreach hmore _ (.inl rfl)
  refine ⟨hmore, by decide +kernel, ?_⟩
  rw [← hbeside]
  cases hread : held fs dir with
  | found config =>
    rw [hfound config hread]
    have hlimit : limitOf (held fs ⟨"shop"⟩).config? = some 100 := by decide +kernel
    rw [← hdir, hread] at hlimit
    exact hlimit
  | unknown | missing =>
    have hsome : (held fs ⟨"shop"⟩).config?.isSome := by decide +kernel
    rw [← hdir, hread] at hsome
    cases hsome

/-- Without a working directory the notification of a rule file in the current directory does not reach the look-ups:
they keep the old rules. -/
theorem notice_misses_lone_name :
    let c := shopCascade none "./.htmlhintrc"
    let fs := (shopFiles "./.htmlhintrc" "100").fileSystem
    let c' := (c.invalidate (ruleFileBeside ⟨"page.isml"⟩)).value
    c.editorOverride.isEmpty ∧ (⟨"page.isml"⟩ : Path).fileName? = some "page.isml" ∧
    fs.isDirectory (c.absolute ⟨"page.isml"⟩) = false ∧
    c'.candidates fs ⟨"page.isml"⟩ = [here] ∧ (c'.entry here).config?.isSome ∧
    (c'.findOverride fs ⟨"page.isml"⟩).value.2.reads = c.reads ∧
    limitOf (c'.findOverride fs ⟨"page.isml"⟩).value.1 = some 80 := by
  decide +kernel

end TagLint.Cascade

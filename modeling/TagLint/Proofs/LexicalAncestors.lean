import TagLint.Proofs.CascadeView
import TagLint.Rule.MaxLength

/-!
# Whose rule file applies to a path with `..`

The walk up from a path drops its components one by one and takes `..` for one of them.  So it goes through the
beginnings of the path as it is written; whether such a beginning is a directory above the place that the path leads
to depends on what comes after it.

* `lexical_prefix_append`: a beginning stays above as long as the rest does not climb out of it.
* `exists_of_findIn`: a configuration that is found belongs to one of the directories gone through.
* `findOverride_at_or_above`: so the rule file that is found is at or above the file unless the path climbs out of
  its directory.
-/

namespace TagLint

namespace Path

/-! ## Resolving `..` -/

/-- One component further: `..` takes back a name, and there is nothing above the root. -/
def follow (ks : List Component) : Component → List Component
  | .up =>
    match ks.getLast? with
    | some (.name _) => ks.dropLast
    | some .root => ks
    | _ => ks ++ [.up]
  | k => ks ++ [k]

/-- The components with `..` resolved by the components alone. -/
def lexical (ks : List Component) : List Component := ks.foldl follow []

/-- Whether components lead nowhere above the place `depth` levels over their start. -/
def staysBelow : ℕ → List Component → Bool
  | _, [] => true
  | 0, .up :: _ => false
  | depth + 1, .up :: ks => staysBelow depth ks
  | depth, _ :: ks => staysBelow (depth + 1) ks

theorem prefix_dropLast_of_length_lt {α : Type} {as bs : List α} (h : as <+: bs) (hlt : as.length < bs.length) :
    as <+: bs.dropLast := by
  obtain ⟨cs, rfl⟩ := h
  have hne : cs ≠ [] := fun hcs => by simp [hcs] at hlt
  rw [List.dropLast_append_of_ne_nil hne]
  exact List.prefix_append as _

/-- Going up leads at most one level up. -/
theorem follow_up {base ks : List Component} {depth : ℕ} (hbase : base <+: ks)
    (hdepth : base.length + (depth + 1) ≤ ks.length) :
    base <+: follow ks .up ∧ base.length + depth ≤ (follow ks .up).length := by
  simp only [follow]
  split
  · refine ⟨prefix_dropLast_of_length_lt hbase (by omega), ?_⟩
    rw [List.length_dropLast]
    omega
  · exact ⟨hbase, by omega⟩
  · refine ⟨hbase.trans (List.prefix_append ks _), ?_⟩
    rw [List.length_append]
    omega

/-- Any other component leads one level down. -/
theorem follow_of_ne_up (ks : List Component) {k : Component} (h : k ≠ .up) : follow ks k = ks ++ [k] := by
  cases k with
  | up => exact absurd rfl h
  | root | here | name => rfl

theorem staysBelow_cons_of_ne_up (depth : ℕ) (ks : List Component) {k : Component} (h : k ≠ .up) :
    staysBelow depth (k :: ks) = staysBelow (depth + 1) ks := by
  cases k with
  | up => exact absurd rfl h
  | root | here | name => cases depth <;> rfl

theorem prefix_foldl_follow {base : List Component} (rest : List Component) {ks : List Component} {depth : ℕ}
    (hbase : base <+: ks) (hdepth : base.length + depth ≤ ks.length) (h : staysBelow depth rest) :
    base <+: rest.foldl follow ks := by
  induction rest generalizing ks depth with
  | nil => exact hbase
  | cons k rest ih =>
    rw [List.foldl_cons]
    by_cases hk : k = .up
    · subst hk
      cases depth with
      | zero => cases h
      | succ depth =>
        obtain ⟨hbase', hdepth'⟩ := follow_up hbase hdepth
        exact ih hbase' hdepth' h
    · rw [staysBelow_cons_of_ne_up depth rest hk] at h
      rw [follow_of_ne_up ks hk]
      refine ih (hbase.trans (List.prefix_append ks _)) ?_ h
      rw [List.length_append, List.length_singleton]
      omega

/-- Components that do not climb out of a directory stay below it. -/
theorem lexical_prefix_append (ks : List Component) {rest : List Component} (h : staysBelow 0 rest) :
    lexical ks <+: lexical (ks ++ rest) := by
  rw [lexical, lexical, List.foldl_append]
  exact prefix_foldl_follow rest List.prefix_rfl le_rfl h

theorem staysBelow_of_not_mem {rest : List Component} (depth : ℕ) (h : Component.up ∉ rest) :
    staysBelow depth rest := by
  induction rest generalizing depth with
  | nil => rw [staysBelow]
  | cons k rest ih =>
    obtain ⟨hk, hrest⟩ := not_or.mp (mt List.mem_cons.mpr h)
    rw [staysBelow_cons_of_ne_up depth rest (Ne.symm hk)]
    exact ih (depth + 1) hrest

end Path

namespace Cascade

variable {fs : FileSystem} {c : Cascade} {config : RuleConfig}

/-- The configuration of a directory: the one that is known, or the one in its rule file if nothing is known. -/
def Gives (fs : FileSystem) (c : Cascade) (dir : Path) (config : RuleConfig) : Prop :=
  c.entry dir = .found config ∨ c.entry dir = .unknown ∧ held fs dir = .found config

/-- A directory that turns out to have no configuration changes nothing for the others. -/
theorem Gives.of_lookUp_missing {dir dir' : Path} (h : Gives fs (c.lookUp fs dir).value.2 dir' config)
    (hmissing : (c.lookUp fs dir).value.1 = .missing) : Gives fs c dir' config := by
  cases hentry : c.entry dir with
  | missing | found =>
    rw [value_lookUp_of_known (by simp [hentry])] at h
    exact h
  | unknown =>
    rw [value_lookUp_of_unknown hentry] at h hmissing
    have hafter : Cascade.entry { c.remember dir (held fs dir) with reads := ruleFile dir :: c.reads } dir' =
        if dir'.components = dir.components then held fs dir else c.entry dir' := by
      show (SortedMap.get? (c.cache.insert _ _) _).getD _ = _
      rw [SortedMap.get?_insert]
      split_ifs <;> rfl
    rw [Gives, hafter] at h
    split_ifs at h with hsame
    · have hheld : held fs dir = .missing := hmissing
      simp [hheld] at h
    · exact h

/-- A look-up tells what is known, or what the rule file holds. -/
theorem gives_of_lookUp {dir : Path} (h : (c.lookUp fs dir).value.1 = .found config) : c.Gives fs dir config := by
  cases hentry : c.entry dir with
  | unknown =>
    rw [value_lookUp_of_unknown hentry] at h
    exact .inr ⟨hentry, h⟩
  | missing | found =>
    rw [value_lookUp_of_known (by simp [hentry])] at h
    exact .inl h

/-- A look-up leaves nothing unknown. -/
theorem value_lookUp_ne_unknown (fs : FileSystem) (c : Cascade) (dir : Path) : (c.lookUp fs dir).value.1 ≠ .unknown := by
  cases hentry : c.entry dir with
  | unknown =>
    rw [value_lookUp_of_unknown hentry, held]
    cases ((fs.read (ruleFile dir)).toOption.bind fun text => (RuleConfig.parse text).toOption) <;> simp [CacheEntry.ofConfig?]
  | missing | found => rw [value_lookUp_of_known (by simp [hentry])]; simp [hentry]

/-- A configuration that is found belongs to one of the directories gone through. -/
theorem exists_of_findIn {dirs : List Path} (h : (c.findIn fs dirs).value.1 = some config) :
    ∃ dir ∈ dirs, c.Gives fs dir config := by
  induction dirs generalizing c with
  | nil => cases h
  | cons dir dirs ih =>
    rw [findIn, Logged.value_bind] at h
    have hvalue : (c.lookUp fs dir).value = ((c.lookUp fs dir).value.1, (c.lookUp fs dir).value.2) := rfl
    rw [hvalue] at h
    cases hlook : (c.lookUp fs dir).value.1 with
    | found known =>
      rw [hlook] at h
      obtain rfl : known = config := Option.some.inj h
      exact ⟨dir, List.mem_cons_self, gives_of_lookUp hlook⟩
    | missing =>
      rw [hlook] at h
      obtain ⟨dir', hmem, hgives⟩ := ih h
      exact ⟨dir', List.mem_cons_of_mem dir hmem, hgives.of_lookUp_missing hlook⟩
    | unknown => exact absurd hlook (value_lookUp_ne_unknown fs c dir)

/-- A search goes through beginnings of the path as it is written. -/
theorem prefix_of_mem_candidates {wd dir : Path} (hwd : wd.isAbsolute) (hc : c.workingDir = some wd) (p : Path)
    (h : dir ∈ c.candidates fs p) : dir.components <+: (wd.join p).components := by
  have hmem : dir.components ∈ (c.candidates fs p).map Path.components := List.mem_map_of_mem h
  rw [map_components_candidates hwd hc, Path.mem_atOrAbove] at hmem
  split_ifs at hmem with hdir
  · exact hmem.2
  · exact hmem.2.trans (List.dropLast_prefix _)

/-- **Whose rules apply.**  The configuration that is found for a path belongs to a directory whose components begin
those of the path as it is written.  That directory is at or above the place that the path leads to, unless the rest
of the path climbs out of it; a path without `..` climbs out of nothing. -/
theorem findOverride_at_or_above {wd p : Path} (hwd : wd.isAbsolute) (hc : c.workingDir = some wd)
    (h : (c.findOverride fs p).value.1 = some config) :
    ∃ dir rest, c.Gives fs dir config ∧ (wd.join p).components = dir.components ++ rest ∧
      (Path.staysBelow 0 rest → Path.lexical dir.components <+: Path.lexical (wd.join p).components) ∧
      (Component.up ∉ (wd.join p).components → Path.staysBelow 0 rest) := by
  obtain ⟨dir, hmem, hgives⟩ := exists_of_findIn h
  obtain ⟨rest, hrest⟩ := prefix_of_mem_candidates hwd hc p hmem
  refine ⟨dir, rest, hgives, hrest.symm, fun hstays => ?_, fun hup => ?_⟩
  · rw [← hrest]
    exact Path.lexical_prefix_append dir.components hstays
  · refine Path.staysBelow_of_not_mem 0 fun hmem => hup ?_
    rw [← hrest]
    exact List.mem_append_right dir.components hmem

/-- A project with a rule file, and a page beside the project. -/
def projectFiles : FileSystem :=
  MemoryFiles.fileSystem (.ofList [(Path.components ⟨"/w/project/.htmlhintrc"⟩, "\x7b\"max-length\": 80\x7d"),
    (Path.components ⟨"/w/other/page.isml"⟩, "")])

theorem findOverride_at_or_above_project :
    let c := Cascade.new (some ⟨"/w/project"⟩)
    ∃ config, (c.findOverride projectFiles ⟨"parts/page.isml"⟩).value.1 = some config ∧
      ∃ dir, c.Gives projectFiles dir config ∧
        Path.lexical dir.components <+: Path.components ⟨"/w/project/parts/page.isml"⟩ := by
  intro c
  have hwd : (⟨"/w/project"⟩ : Path).isAbsolute := by decide
  have hsome : (c.findOverride projectFiles ⟨"parts/page.isml"⟩).value.1.isSome := by decide +kernel
  obtain ⟨config, hconfig⟩ := Option.isSome_iff_exists.mp hsome
  obtain ⟨dir, rest, hgives, -, habove, hplain⟩ := findOverride_at_or_above hwd rfl hconfig
  have hjoin : Path.lexical ((⟨"/w/project"⟩ : Path).join ⟨"parts/page.isml"⟩).components =
      Path.components ⟨"/w/project/parts/page.isml"⟩ := by decide
  rw [hjoin] at habove
  exact ⟨config, hconfig, dir, hgives, habove (hplain (by decide))⟩

/-- The rule file of a project is found for a page that the path leaves the project for. -/
theorem findOverride_beside_project :
    let c := Cascade.new (some ⟨"/w/project"⟩)
    let page : Path := ⟨"../other/page.isml"⟩
    let found := c.findOverride projectFiles page
    found.value.1.isSome ∧ (found.value.2.entry ⟨"/w/project"⟩).config?.isSome ∧
    Path.lexical ((⟨"/w/project"⟩ : Path).join page).components = Path.components ⟨"/w/other/page.isml"⟩ ∧
    ¬ (⟨"/w/other/page.isml"⟩ : Path).startsWith ⟨"/w/project"⟩ := by
  decide +kernel

end Cascade

end TagLint

import TagLint.Proofs.CascadeReads

/-!
# The upward walk — a search for rules ends

`Climbs` is a search as it goes, from one directory to the one above, with no bound on its length.

* `height_above?`: the directory above is less high than the one below, though the current directory has as many
  components as a lone name.
* `upward_eq`: so a path and the directories above it are the path, then the directory above and those above it; the
  bound in `upward` cuts none of them off.
* `climbs_upward`, `Climbs.unique`: a search from a directory goes through the directories at and above it up to the
  first one with a configuration, and there is no other way for it to go.
* **`search_ends`**: a search ends, and goes through no directory twice.
-/

namespace TagLint

namespace Path

theorem height_le_length (ks : List Component) : height ks ≤ ks.length := by
  unfold height
  split_ifs <;> omega

/-- More steps than a path is high add no directories. -/
theorem upwardUpTo_eq_of_height_lt {m n : ℕ} {p : Path} (hm : height p.components < m) (hn : height p.components < n) :
    upwardUpTo m p = upwardUpTo n p := by
  induction m generalizing n p with
  | zero => omega
  | succ m ih =>
    obtain ⟨n, rfl⟩ := Nat.exists_eq_add_one_of_ne_zero (Nat.ne_zero_of_lt hn)
    rw [upwardUpTo, upwardUpTo]
    cases hab : p.above? with
    | none => rfl
    | some q =>
      have hlt := height_above? hab
      have hsame : upwardUpTo m q = upwardUpTo n q := ih (by omega) (by omega)
      exact congrArg (p :: ·) hsame

/-- The directories at and above a path, as the walk goes through them. -/
theorem upward_eq (p : Path) :
    p.upward = p :: match p.above? with
      | some q => q.upward
      | none => [] := by
  rw [upward, upwardUpTo]
  cases hab : p.above? with
  | none => rfl
  | some q =>
    have hlt := height_above? hab
    have hp := height_le_length p.components
    have hq := height_le_length q.components
    have hsame : upwardUpTo p.components.length q = q.upward :=
      upwardUpTo_eq_of_height_lt (by omega) (by omega)
    exact congrArg (p :: ·) hsame

theorem length_upwardUpTo_le (count : ℕ) (p : Path) : (upwardUpTo count p).length ≤ height p.components + 1 := by
  induction count generalizing p with
  | zero => exact Nat.zero_le _
  | succ count ih =>
    rw [upwardUpTo, List.length_cons]
    cases hab : p.above? with
    | none => exact Nat.le_add_left 1 _
    | some q =>
      have hlt := height_above? hab
      have hq := ih q
      show (upwardUpTo count q).length + 1 ≤ _
      omega

end Path

namespace Cascade

open TagLint.Path

variable {fs : FileSystem} {c c' c'' : Cascade} {start : Option Path} {dirs dirs' : List Path}
  {found? found?' : Option RuleConfig}

/-! ## A search as it goes -/

/-- Where a search starts: at the path if it is a directory, else in the directory above. -/
def searchStart (fs : FileSystem) (c : Cascade) (p : Path) : Option Path :=
  if fs.isDirectory (c.absolute p) then some (c.absolute p) else (c.absolute p).above?

/-- A search from some directory on, if there is one: the directories looked up, what is found in the last one, and the
cascade afterwards. -/
inductive Climbs (fs : FileSystem) : Cascade → Option Path → List Path → Option RuleConfig → Cascade → Prop
  /-- There is no directory above. -/
  | ends (c : Cascade) : Climbs fs c none [] none c
  | finds {c c' : Cascade} {dir : Path} {config : RuleConfig} :
    (c.lookUp fs dir).value = (.found config, c') → Climbs fs c (some dir) [dir] (some config) c'
  /-- There is no configuration here, and the search goes on above. -/
  | rises {c c' c'' : Cascade} {dir : Path} {e : CacheEntry} {dirs : List Path} {found? : Option RuleConfig} :
    (c.lookUp fs dir).value = (e, c') → e.config? = none → Climbs fs c' dir.above? dirs found? c'' →
      Climbs fs c (some dir) (dir :: dirs) found? c''

/-- A search has one way to go. -/
theorem Climbs.unique (h : Climbs fs c start dirs found? c') (h' : Climbs fs c start dirs' found?' c'') :
    dirs' = dirs ∧ found?' = found? ∧ c'' = c' := by
  induction h generalizing dirs' found?' c'' with
  | ends c =>
    cases h'
    exact ⟨rfl, rfl, rfl⟩
  | finds hlook =>
    cases h' with
    | finds hlook' =>
      obtain ⟨hentry, rfl⟩ := Prod.mk.inj (hlook.symm.trans hlook')
      cases hentry
      exact ⟨rfl, rfl, rfl⟩
    | rises hlook' hnone =>
      obtain ⟨rfl, -⟩ := Prod.mk.inj (hlook.symm.trans hlook')
      cases hnone
  | rises hlook hnone _ ih =>
    cases h' with
    | finds hlook' =>
      obtain ⟨rfl, -⟩ := Prod.mk.inj (hlook.symm.trans hlook')
      cases hnone
    | rises hlook' _ hrest =>
      obtain ⟨-, rfl⟩ := Prod.mk.inj (hlook.symm.trans hlook')
      obtain ⟨rfl, rfl, rfl⟩ := ih hrest
      exact ⟨rfl, rfl, rfl⟩

theorem not_mem_of_above? {dir q : Path} (h : dir.above? = some q) : dir.components ∉ q.upward.map components := by
  have hnodup := nodup_components_upwardUpTo (dir.components.length + 1) dir
  rw [← upward, upward_eq, h] at hnodup
  exact (List.nodup_cons.mp hnodup).1

/-- A look-up does not matter to the other directories. -/
theorem upToFound_lookUp {dir : Path} (h : dir.components ∉ dirs.map components) :
    upToFound ((c.lookUp fs dir).value.2.seen fs) dirs = upToFound (c.seen fs) dirs := by
  refine upToFound_congr fun d hd => seen_congr ?_
  refine (lookUp_fills fs c dir).2.entry_eq fun hmem => ?_
  obtain ⟨d', hd', heq⟩ := List.mem_map.mp hmem
  obtain rfl : d' = dir := List.mem_singleton.mp (List.mem_filter.mp hd').1
  exact h (heq ▸ List.mem_map_of_mem (upToFound_subset hd))

/-- A search goes through the directories above, up to the first one with a configuration. -/
theorem climbs_upward (fs : FileSystem) (c : Cascade) (dir : Path) :
    Climbs fs c (some dir) (upToFound (c.seen fs) dir.upward) (c.findIn fs dir.upward).value.1
      (c.findIn fs dir.upward).value.2 := by
  induction hn : height dir.components using Nat.strong_induction_on generalizing c dir with
  | _ n ih =>
    subst hn
    have hseen := (lookUp_fills fs c dir).1
    rw [upward_eq, upToFound_cons, value_findIn_cons]
    cases hconfig : (c.seen fs dir).config? with
    | some config =>
      have hfound : c.seen fs dir = .found config := by
        cases hentry : c.seen fs dir with
        | found known =>
          rw [hentry] at hconfig
          exact congrArg _ (Option.some.inj hconfig)
        | unknown | missing => rw [hentry] at hconfig; cases hconfig
      exact .finds (Prod.ext (hseen.trans hfound) rfl)
    | none =>
      refine .rises (Prod.ext hseen rfl) hconfig ?_
      cases hab : dir.above? with
      | none => exact .ends _
      | some q =>
        have hrest := ih _ (height_above? hab) (c.lookUp fs dir).value.2 q rfl
        rw [upToFound_lookUp (not_mem_of_above? hab)] at hrest
        exact hrest

/-! ## The search for a path -/

theorem candidates_eq (fs : FileSystem) (c : Cascade) (p : Path) :
    c.candidates fs p = match c.searchStart fs p with
      | some dir => dir.upward
      | none => [] := by
  rw [searchStart]
  by_cases hdir : fs.isDirectory (c.absolute p)
  · rw [if_pos hdir]
    exact if_pos hdir
  · rw [if_neg hdir]
    exact if_neg hdir

theorem climbs_findOverride (fs : FileSystem) (c : Cascade) (p : Path) :
    Climbs fs c (c.searchStart fs p) (c.walk fs p) (c.findOverride fs p).value.1 (c.findOverride fs p).value.2 := by
  rw [walk, findOverride, candidates_eq]
  cases c.searchStart fs p with
  | none => exact .ends c
  | some dir => exact climbs_upward fs c dir

/-- A search starts no higher than the path is. -/
theorem height_searchStart_le {p dir : Path} (h : c.searchStart fs p = some dir) :
    height dir.components ≤ (c.absolute p).components.length := by
  have hle := height_le_length (c.absolute p).components
  rw [searchStart] at h
  split_ifs at h
  · rw [← Option.some.inj h]
    exact hle
  · exact (height_above? h).le.trans hle

theorem length_walk_le (fs : FileSystem) (c : Cascade) (p : Path) :
    (c.walk fs p).length ≤ (c.absolute p).components.length + 1 := by
  have hwalk : (c.walk fs p).length ≤ (c.candidates fs p).length := (List.take_sublist _ _).length_le
  refine hwalk.trans ?_
  rw [candidates_eq]
  cases hstart : c.searchStart fs p with
  | none => exact Nat.zero_le _
  | some dir => exact (length_upwardUpTo_le _ dir).trans (Nat.add_le_add_right (height_searchStart_le hstart) 1)

/-- **The upward walk ends.**  Whatever the path, the working directory, the files and what is known of them, a search
comes to an end, in one way, with the answer and the cascade of `findOverride`.  The directories that it goes through
differ by their components, and they are at most one more than the components of the path. -/
theorem search_ends (fs : FileSystem) (c : Cascade) (p : Path) :
    (∀ dirs found? c', Climbs fs c (c.searchStart fs p) dirs found? c' ↔
      dirs = c.walk fs p ∧ (found?, c') = (c.findOverride fs p).value) ∧
    ((c.walk fs p).map components).Nodup ∧
    (c.walk fs p).length ≤ (c.absolute p).components.length + 1 := by
  have hsearch := climbs_findOverride fs c p
  refine ⟨fun dirs found? c' => ⟨fun h => ?_, ?_⟩, nodup_components_walk fs c p, length_walk_le fs c p⟩
  · obtain ⟨rfl, rfl, rfl⟩ := hsearch.unique h
    exact ⟨rfl, rfl⟩
  · rintro ⟨rfl, hvalue⟩
    rwa [← hvalue] at hsearch

/-- Without a working directory a lone name takes two look-ups, and the current directory ends the walk however it is
written. -/
example : (⟨"pages"⟩ : Path).upward = [⟨"pages"⟩, ⟨"."⟩] ∧ (⟨"./."⟩ : Path).upward = [⟨"./."⟩] ∧
    (⟨".//pages/."⟩ : Path).upward = [⟨".//pages/."⟩, ⟨"."⟩] := by decide +kernel

end Cascade

end TagLint

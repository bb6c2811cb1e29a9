import TagLint.Proofs.LayerMerge

/-!
# Layer names — what files give to a name at their top

A key at the top of a file may go on with places in brackets: it makes a list of the name that it starts with.

* `said`: the entries of a file about a name; `given`: the values that they give to it.
* `valueAt_layAll`: the value of a name is made of what all files say about it, in order.
* **`valueAt_of_isTable`**: of values that are alike, those of the name itself are laid over each other, when a table is
  left.
* **`lastSet_of_isScalar`**: a value other than a table or list is the one that the last file sets.
-/

namespace TagLint.Settings

open Toml

variable {name k : String} {c : List (String × Toml)} {e : String × Toml} {layers : List Layer} {v : Toml}

/-! ## Keys at the top -/

/-- Without a point a path goes on with places only. -/
theorem index_of_mem_readSteps {count : ℕ} {cs : List Char} {steps : List Step} (hdot : '.' ∉ cs)
    (h : readSteps count cs = some steps) : ∀ step ∈ steps, ∃ i, step = .index i := by
  induction count generalizing cs steps with
  | zero =>
    cases cs with
    | nil =>
      obtain rfl := Option.some.inj h
      exact nofun
    | cons => cases h
  | succ count ih =>
    cases cs with
    | nil =>
      obtain rfl := Option.some.inj h
      exact nofun
    | cons d cs =>
      rw [readSteps] at h
      split_ifs at h with hd hbracket
      · exact absurd (hd ▸ List.mem_cons_self) hdot
      · split at h
        · rename_i rest hrest
          obtain ⟨i, -, h⟩ := Option.bind_eq_some_iff.mp h
          obtain ⟨steps, hsteps, h⟩ := Option.bind_eq_some_iff.mp h
          obtain rfl := Option.some.inj h
          have hsuffix : ']' :: rest <:+ cs := hrest ▸ List.dropWhile_suffix _
          have hrest' : '.' ∉ rest := fun hmem =>
            hdot (List.mem_cons_of_mem _ (hsuffix.subset (List.mem_cons_of_mem _ hmem)))
          exact List.forall_mem_cons.mpr ⟨⟨i, rfl⟩, ih hrest' hsteps⟩
        · cases h

theorem readSteps_eq_nil {count : ℕ} {cs : List Char} (h : readSteps count cs = some []) : cs = [] := by
  cases cs with
  | nil => rfl
  | cons d cs =>
    cases count with
    | zero => cases h
    | succ count =>
      rw [readSteps] at h
      split_ifs at h
      · dsimp only at h
        split_ifs at h
        obtain ⟨steps, -, h⟩ := Option.bind_eq_some_iff.mp h
        cases h
      · split at h
        · obtain ⟨i, -, h⟩ := Option.bind_eq_some_iff.mp h
          obtain ⟨steps, -, h⟩ := Option.bind_eq_some_iff.mp h
          cases h
        · cases h

/-- A key is taken whole, or reads as a name with steps after it. -/
theorem keyPath_cases (k : String) : keyPath k = (k, []) ∨
    ∃ steps, readSteps k.toList.length (k.toList.dropWhile isPathChar) = some steps ∧
      keyPath k = (String.ofList (k.toList.takeWhile isPathChar), steps) := by
  unfold keyPath
  dsimp only
  split
  · exact .inl rfl
  · rename_i steps hsteps _
    exact .inr ⟨steps, hsteps, rfl⟩
  · exact .inl rfl

theorem index_of_mem_keyPath (hdot : '.' ∉ k.toList) : ∀ step ∈ (keyPath k).2, ∃ i, step = .index i := by
  obtain hwhole | ⟨steps, hsteps, hpath⟩ := keyPath_cases k
  · rw [hwhole]
    exact nofun
  · rw [hpath]
    exact index_of_mem_readSteps (fun hmem => hdot ((List.dropWhile_suffix _).subset hmem)) hsteps

/-- A key without steps is the name itself. -/
theorem keyPath_eq_self (h : (keyPath k).2 = []) : (keyPath k).1 = k := by
  obtain hwhole | ⟨steps, hsteps, hpath⟩ := keyPath_cases k
  · rw [hwhole]
  · rw [hpath] at h ⊢
    obtain rfl : steps = [] := h
    have hall : k.toList.takeWhile isPathChar = k.toList := by
      have hsplit := List.takeWhile_append_dropWhile (p := isPathChar) (l := k.toList)
      rwa [readSteps_eq_nil hsteps, List.append_nil] at hsplit
    rw [hall, String.ofList_toList]

/-! ## What files say of a name -/

/-- The entries of a file about a name. -/
def said (name : String) (c : List (String × Toml)) : List (String × Toml) := c.filter fun e => (keyPath e.1).1 = name

/-- The value that an entry gives to its name: its own, or a list when the key goes on with a place in brackets. -/
def givenBy (e : String × Toml) : Toml := if (keyPath e.1).2 = [] then e.2 else .array []

/-- The values that a file gives to a name. -/
def given (name : String) (c : List (String × Toml)) : List Toml := (said name c).map givenBy

/-- Entries about a name laid over its value. -/
def laid (es : List (String × Toml)) (old? : Option Toml) : Option Toml :=
  es.foldl (fun old? e => some (setAt e.2 (keyPath e.1).2 old?)) old?

/-- The value of a name among settings. -/
def valueAt (settings : List (String × Setting)) (name : String) : Option Toml :=
  (lookup? settings name).map (·.value)

theorem valueAt_layEntry (file : String) (settings : List (String × Setting)) (e : String × Toml) (name : String) :
    valueAt (layEntry file settings e) name = laid (said name [e]) (valueAt settings name) := by
  rw [valueAt, layEntry, said, List.filter_singleton]
  by_cases hname : (keyPath e.1).1 = name
  · subst hname
    dsimp only
    rw [lookup?_put_self, decide_eq_true rfl]
    rfl
  · dsimp only
    rw [lookup?_put_of_ne _ _ (Ne.symm hname), decide_eq_false hname]
    rfl

theorem valueAt_lay (settings : List (String × Setting)) (layer : Layer) (name : String) :
    valueAt (lay settings layer) name = laid (said name layer.entries) (valueAt settings name) := by
  rw [lay]
  induction layer.entries using List.reverseRecOn with
  | nil => rfl
  | append_singleton es e ih =>
    rw [List.foldl_append, said, List.filter_append, laid, List.foldl_append]
    show valueAt (layEntry layer.file _ e) name = _
    rw [valueAt_layEntry, ih]
    rfl

theorem valueAt_layAll_concat (layers : List Layer) (layer : Layer) (name : String) :
    valueAt (layAll (layers ++ [layer])) name =
      laid (said name layer.entries) (valueAt (layAll layers) name) := by
  rw [layAll, List.foldl_append]
  exact valueAt_lay _ layer name

/-- The value of a name is made of what all files say about it. -/
theorem valueAt_layAll (layers : List Layer) (name : String) :
    valueAt (layAll layers) name = laid (layers.flatMap fun l => said name l.entries) none := by
  induction layers using List.reverseRecOn with
  | nil => rfl
  | append_singleton layers layer ih =>
    rw [valueAt_layAll_concat, ih, List.flatMap_append, laid, laid, laid, List.foldl_append, List.flatMap_singleton]

/-! ## The value that is left -/

/-- The scalar or list that the last of some files sets at a path. -/
def lastSet (contents : List (List (String × Toml))) (path : List String) : Option Toml :=
  contents.reverse.findSome? fun c => (Toml.table c).leafAt? path

theorem lastSet_concat (contents : List (List (String × Toml))) (c : List (String × Toml)) (path : List String) :
    lastSet (contents ++ [c]) path = ((Toml.table c).leafAt? path).or (lastSet contents path) := by
  rw [lastSet, List.reverse_concat, List.findSome?_cons]
  cases (Toml.table c).leafAt? path <;> rfl

theorem laid_concat (es : List (String × Toml)) (e : String × Toml) (old? : Option Toml) :
    laid (es ++ [e]) old? = some (setAt e.2 (keyPath e.1).2 (laid es old?)) := by
  rw [laid, List.foldl_append]
  rfl

/-- Under a name the last file sets what the last value of the name holds. -/
theorem lastSet_cons (contents : List (List (String × Toml))) (name : String) (path : List String) :
    lastSet contents (name :: path) =
      (contents.filterMap fun c => lookup? c name).reverse.findSome? fun v => v.leafAt? path := by
  rw [lastSet, ← List.filterMap_reverse, ← List.head?_filterMap, ← List.head?_filterMap, List.filterMap_filterMap]
  congr 2
  funext c
  exact leafAt?_table_cons c name path

/-- The last entry decides whether a table is left. -/
theorem isTable_setAt (hdot : '.' ∉ e.1.toList) (old? : Option Toml) :
    (setAt e.2 (keyPath e.1).2 old?).isTable = (givenBy e).isTable := by
  have hplaces := index_of_mem_keyPath hdot
  rw [givenBy]
  rcases hsteps : (keyPath e.1).2 with _ | ⟨step, steps⟩
  · rw [setAt, if_pos rfl, isTable_merge]
  · obtain ⟨i, rfl⟩ := hplaces step (by rw [hsteps]; exact List.mem_cons_self)
    rw [setAt, if_neg (List.cons_ne_nil _ _)]
    rfl

/-- When a scalar is left, the last entry is for the name itself and its value is what is left. -/
theorem setAt_of_isScalar (hdot : '.' ∉ e.1.toList) {old? : Option Toml}
    (h : (setAt e.2 (keyPath e.1).2 old?).isScalar) :
    (keyPath e.1).2 = [] ∧ e.2.isTable = false ∧ setAt e.2 (keyPath e.1).2 old? = e.2 := by
  rcases hsteps : (keyPath e.1).2 with _ | ⟨step, steps⟩
  · rw [hsteps, setAt] at h
    have hkind : e.2.isTable = false := by
      rw [← isTable_merge old? e.2]
      exact isTable_of_isScalar h
    exact ⟨rfl, hkind, by rw [setAt, merge_of_isTable _ hkind]⟩
  · obtain ⟨i, rfl⟩ := index_of_mem_keyPath hdot step (by rw [hsteps]; exact List.mem_cons_self)
    rw [hsteps, setAt] at h
    cases h

/-- Entries for the name itself are laid over each other. -/
theorem laid_eq_overlaid {es : List (String × Toml)} (h : ∀ e ∈ es, (keyPath e.1).2 = []) :
    laid es none = overlaid (es.map (·.2)) := by
  induction es using List.reverseRecOn with
  | nil => rfl
  | append_singleton es e ih =>
    obtain ⟨hes, he⟩ := List.forall_mem_append.mp h
    rw [laid_concat, he e (List.mem_singleton_self e), List.map_append, List.map_singleton, overlaid_concat, ih hes,
      setAt]

/-- When a table is left, no entry made a list of the name: all values that are given are tables. -/
theorem keyPath_of_isTable {es : List (String × Toml)} (hdot : ∀ e ∈ es, '.' ∉ e.1.toList)
    (halike : ∀ e ∈ es, ∀ f ∈ es, Alike (givenBy e) (givenBy f)) (htable : ∀ m ∈ laid es none, Toml.isTable m) :
    ∀ e ∈ es, (keyPath e.1).2 = [] := by
  induction es using List.reverseRecOn with
  | nil => exact nofun
  | append_singleton es last _ =>
    have hmem : last ∈ es ++ [last] := List.mem_concat_self
    have hlast : (givenBy last).isTable := by
      rw [← isTable_setAt (hdot last hmem) (laid es none)]
      exact htable _ (laid_concat es last none)
    intro e he
    by_contra hsteps
    have hkind := halike e he last hmem [] _ _ rfl rfl
    rw [hlast, givenBy, if_neg hsteps] at hkind
    cases hkind

theorem mem_said_of_lookup? (hname : keyPath name = (name, [])) (h : lookup? c name = some v) :
    (name, v) ∈ said name c := by
  refine List.mem_filter.mpr ⟨mem_of_lookup? h, ?_⟩
  rw [hname]
  exact decide_eq_true rfl

theorem mem_given_of_lookup? (hname : keyPath name = (name, [])) (h : lookup? c name = some v) : v ∈ given name c :=
  List.mem_map.mpr ⟨_, mem_said_of_lookup? hname h, if_pos (congrArg Prod.snd hname)⟩

theorem lookup?_of_said_eq_nil (hname : keyPath name = (name, [])) (h : said name c = []) : lookup? c name = none := by
  rw [Option.eq_none_iff_forall_ne_some]
  intro v hv
  have hmem := mem_said_of_lookup? hname hv
  rw [h] at hmem
  cases hmem

theorem lookup?_of_mem_said (hkeys : (c.map (·.1)).Nodup) (hsteps : (keyPath e.1).2 = []) (he : e ∈ said name c) :
    e.1 = name ∧ lookup? c name = some e.2 := by
  obtain ⟨hmem, hroot⟩ := List.mem_filter.mp he
  obtain rfl : e.1 = name := (keyPath_eq_self hsteps).symm.trans (of_decide_eq_true hroot)
  exact ⟨rfl, lookup?_of_mem hkeys hmem⟩

/-- A name that no key makes a list of is said once at most in a file with distinct keys. -/
theorem said_eq (hname : keyPath name = (name, [])) (hkeys : (c.map (·.1)).Nodup)
    (hsteps : ∀ e ∈ said name c, (keyPath e.1).2 = []) :
    said name c = (lookup? c name).toList.map fun v => (name, v) := by
  have hnodup : (said name c).Nodup := (hkeys.of_map _).filter _
  have honce : ((lookup? c name).toList.map fun v => (name, v)).Nodup := by
    rcases lookup? c name with _ | v
    · exact List.nodup_nil
    · exact List.nodup_singleton _
  have hperm : (said name c).Perm ((lookup? c name).toList.map fun v => (name, v)) := by
    refine (List.perm_ext_iff_of_nodup hnodup honce).mpr fun e => ?_
    rw [List.mem_map]
    constructor
    · intro he
      obtain ⟨rfl, hlook⟩ := lookup?_of_mem_said hkeys (hsteps e he) he
      exact ⟨e.2, Option.mem_toList.mpr hlook, rfl⟩
    · rintro ⟨v, hv, rfl⟩
      exact mem_said_of_lookup? hname (Option.mem_toList.mp hv)
  rcases hlook : lookup? c name with _ | v
  · rw [hlook] at hperm
    exact hperm.eq_nil
  · rw [hlook] at hperm
    exact List.perm_singleton.mp hperm

section Files

variable (hname : keyPath name = (name, [])) (hkeys : ∀ l ∈ layers, (l.entries.map (·.1)).Nodup)
  (hdot : ∀ l ∈ layers, ∀ e ∈ l.entries, '.' ∉ e.1.toList)

include hname hkeys hdot

/-- **The table that is left.**  When the files give values that are alike and a table is left, it is made of what each
file has under the name itself. -/
theorem valueAt_of_isTable
    (halike : ∀ v ∈ layers.flatMap fun l => given name l.entries, ∀ w ∈ layers.flatMap fun l => given name l.entries,
      Alike v w)
    (htable : ∀ m ∈ valueAt (layAll layers) name, Toml.isTable m) :
    valueAt (layAll layers) name = overlaid (layers.filterMap fun l => lookup? l.entries name) := by
  rw [valueAt_layAll] at htable ⊢
  have hgiven : ∀ e ∈ layers.flatMap fun l => said name l.entries,
      givenBy e ∈ layers.flatMap fun l => given name l.entries := by
    intro e he
    obtain ⟨l, hl, he⟩ := List.mem_flatMap.mp he
    exact List.mem_flatMap.mpr ⟨l, hl, List.mem_map_of_mem he⟩
  have hplain : ∀ e ∈ layers.flatMap fun l => said name l.entries, '.' ∉ e.1.toList := by
    intro e he
    obtain ⟨l, hl, he⟩ := List.mem_flatMap.mp he
    exact hdot l hl e (List.mem_filter.mp he).1
  have hsteps := keyPath_of_isTable hplain (fun e he f hf => halike _ (hgiven e he) _ (hgiven f hf)) htable
  have hvalues : ∀ l ∈ layers, (said name l.entries).map (·.2) = (lookup? l.entries name).toList := by
    intro l hl
    rw [said_eq hname (hkeys l hl) fun e he => hsteps e (List.mem_flatMap.mpr ⟨l, hl, he⟩), List.map_map]
    exact List.map_id _
  rw [laid_eq_overlaid hsteps, List.map_flatMap, List.filterMap_eq_flatMap_toList]
  exact congrArg overlaid (List.flatMap_congr hvalues)

/-- **The scalar that is left** is the one that the last file sets. -/
theorem lastSet_of_isScalar (hscalar : ∀ m ∈ valueAt (layAll layers) name, Toml.isScalar m) :
    lastSet (layers.map (·.entries)) [name] = valueAt (layAll layers) name := by
  induction layers using List.reverseRecOn with
  | nil => rfl
  | append_singleton layers l ih =>
    have hl : l ∈ layers ++ [l] := List.mem_concat_self
    rw [valueAt_layAll_concat] at hscalar ⊢
    rw [List.map_append, List.map_singleton, lastSet_concat, leafAt?_table_cons]
    rcases List.eq_nil_or_concat (said name l.entries) with hnone | ⟨es, e, hsaid⟩
    · -- the file says nothing, so what the others set is left
      rw [lookup?_of_said_eq_nil hname hnone]
      rw [hnone] at hscalar ⊢
      exact ih (fun l' hl' => hkeys l' (List.mem_append_left _ hl')) (fun l' hl' => hdot l' (List.mem_append_left _ hl'))
        hscalar
    · -- the last thing that it says is left
      rw [List.concat_eq_append] at hsaid
      have he : e ∈ said name l.entries := by
        rw [hsaid]
        exact List.mem_concat_self
      rw [hsaid, laid_concat] at hscalar ⊢
      obtain ⟨hsteps, hkind, hleft⟩ := setAt_of_isScalar (hdot l hl e (List.mem_filter.mp he).1) (hscalar _ rfl)
      rw [(lookup?_of_mem_said (hkeys l hl) hsteps he).2, hleft]
      show (leafAt? e.2 []).or _ = _
      rw [leafAt?_nil, hkind]
      rfl

end Files

end TagLint.Settings

import Mathlib.Data.List.Induction
import TagLint.Proofs.TomlKeys
import TagLint.Settings.Layer

/-!
# Layer merges — what a value holds after others were laid over it

* `Toml.at?`: the part of a value at a path of keys; `Toml.leafAt?`: the scalar or list there.
* `Toml.Alike`: wherever both of two values have a part, both are tables or neither is.
* `leafAt?_merge`: a value laid over one that is alike holds its own leaves, and those of the old one elsewhere.
* **`leafAt?_overlaid`**: of values that are alike and laid over each other, the last one with a leaf at a path counts.
-/

namespace TagLint

namespace Toml

variable {α : Type} {v w x y : Toml} {k : String} {path : List String}

/-! ## Parts of a value -/

/-- The part of a value at a path of keys. -/
def at? : Toml → List String → Option Toml
  | v, [] => some v
  | .table entries, k :: path => (lookup? entries k).bind fun part => part.at? path
  | _, _ :: _ => none

/-- The scalar or list that a value holds at a path. -/
def leafAt? (v : Toml) (path : List String) : Option Toml := (v.at? path).filter fun part => !part.isTable

theorem leafAt?_nil (v : Toml) : v.leafAt? [] = if v.isTable then none else some v := by
  cases v <;> rfl

theorem leafAt?_table_cons (entries : List (String × Toml)) (k : String) (path : List String) :
    (table entries).leafAt? (k :: path) = (lookup? entries k).bind fun part => part.leafAt? path := by
  rw [leafAt?, at?]
  cases lookup? entries k <;> rfl

theorem at?_cons_of_isTable (h : v.isTable = false) (k : String) (path : List String) : v.at? (k :: path) = none := by
  cases v with
  | table => cases h
  | _ => rfl

theorem leafAt?_cons_of_isTable (h : v.isTable = false) (k : String) (path : List String) :
    v.leafAt? (k :: path) = none := by
  rw [leafAt?, at?_cons_of_isTable h]
  rfl

/-- Wherever both values have a part, both are tables or neither is. -/
def Alike (v w : Toml) : Prop := ∀ path x y, v.at? path = some x → w.at? path = some y → x.isTable = y.isTable

/-- Values that are alike have alike parts. -/
theorem Alike.entries {es fs : List (String × Toml)} (h : Alike (.table es) (.table fs))
    (hv : lookup? es k = some v) (hw : lookup? fs k = some w) : Alike v w := by
  intro path x y hx hy
  apply h (k :: path) x y
  · rw [at?, hv]
    exact hx
  · rw [at?, hw]
    exact hy

/-! ## Distinct keys -/

theorem Distinct.keys {entries : List (String × Toml)} (h : (Toml.table entries).Distinct) : (entries.map (·.1)).Nodup := by
  cases h with
  | table hkeys _ => exact hkeys
  | plain hv => cases hv

theorem Distinct.values {entries : List (String × Toml)} (h : (Toml.table entries).Distinct) :
    ∀ e ∈ entries, e.2.Distinct := by
  cases h with
  | table _ hvalues => exact hvalues
  | plain hv => cases hv

theorem Distinct.put {entries : List (String × Toml)} (h : (Toml.table entries).Distinct) (k : String) (hv : v.Distinct) :
    (Toml.table (put k v entries)).Distinct := by
  refine .table (nodup_keys_put h.keys k v) ?_
  intro e he
  rcases mem_put he with rfl | he
  · exact hv
  · exact h.values e he

end Toml

namespace Settings

open Toml

variable {old? : Option Toml} {v w x : Toml} {k : String} {path : List String} {es : List (String × Toml)}

/-! ## One value over another -/

theorem merge_table (old? : Option Toml) (es : List (String × Toml)) :
    merge old? (.table es) = .table (mergeEntries (entriesOf old?) es) := by
  rw [merge]

theorem merge_of_isTable (old? : Option Toml) (h : v.isTable = false) : merge old? v = v := by
  cases v with
  | table => cases h
  | _ => rw [merge]; nofun

theorem isTable_merge (old? : Option Toml) (v : Toml) : (merge old? v).isTable = v.isTable := by
  cases v with
  | table es =>
    rw [merge_table]
    rfl
  | _ => rw [merge_of_isTable old? rfl]

/-- Each entry is laid over the old entry of its key. -/
theorem lookup?_mergeEntries (hkeys : (es.map (·.1)).Nodup) (old : List (String × Toml)) (k : String) :
    lookup? (mergeEntries old es) k = match lookup? es k with
      | some v => some (merge (lookup? old k) v)
      | none => lookup? old k := by
  induction es generalizing old with
  | nil => rw [mergeEntries]; rfl
  | cons e es ih =>
    obtain ⟨k', v⟩ := e
    obtain ⟨hnew, hrest⟩ := List.nodup_cons.mp hkeys
    rw [mergeEntries, ih hrest, lookup?_cons]
    by_cases hk : k' = k
    · subst hk
      rw [if_pos rfl, lookup?_eq_none hnew]
      exact lookup?_put_self k' _ old
    · rw [if_neg hk, lookup?_put_of_ne _ _ (Ne.symm hk)]

theorem distinct_mergeEntries {old : List (String × Toml)} (hold : (table old).Distinct)
    (hmerge : ∀ e ∈ es, ∀ old?, (∀ o ∈ old?, Toml.Distinct o) → (merge old? e.2).Distinct) :
    (table (mergeEntries old es)).Distinct := by
  induction es generalizing old with
  | nil =>
    rw [mergeEntries]
    exact hold
  | cons e es ih =>
    obtain ⟨k, v⟩ := e
    obtain ⟨hv, hes⟩ := List.forall_mem_cons.mp hmerge
    rw [mergeEntries]
    exact ih (hold.put k (hv _ fun o ho => hold.values _ (mem_of_lookup? ho))) hes

theorem distinct_entriesOf (h : ∀ o ∈ old?, o.Distinct) : (table (entriesOf old?)).Distinct := by
  unfold entriesOf
  split
  · exact h _ rfl
  · exact .table List.nodup_nil nofun

/-- Merging puts no key twice into a table. -/
theorem distinct_merge (hv : v.Distinct) : ∀ old?, (∀ o ∈ old?, Toml.Distinct o) → (merge old? v).Distinct := by
  induction hv with
  | table _ _ ih =>
    intro old? hold
    rw [merge_table]
    exact distinct_mergeEntries (distinct_entriesOf hold) ih
  | plain hv =>
    intro old? _
    rw [merge_of_isTable old? hv]
    exact .plain hv

/-- The part of an old value behind a key. -/
theorem lookup?_entriesOf_bind (old? : Option Toml) (k : String) (path : List String) :
    ((lookup? (entriesOf old?) k).bind fun part => part.at? path) = old?.bind fun old => old.at? (k :: path) := by
  rcases old? with _ | old
  · rfl
  · cases old <;> rfl

/-- Behind a key stands the part of the new value, laid over that of the old one, or the old one alone. -/
theorem at?_merge_cons (hkeys : (es.map (·.1)).Nodup) (old? : Option Toml) (k : String) (path : List String) :
    (merge old? (.table es)).at? (k :: path) = match lookup? es k with
      | some w => (merge (lookup? (entriesOf old?) k) w).at? path
      | none => old?.bind fun old => old.at? (k :: path) := by
  rw [merge_table, at?, lookup?_mergeEntries hkeys]
  rcases lookup? es k with _ | w
  · exact lookup?_entriesOf_bind old? k path
  · rfl

/-- Every part of a merged value is a table or not as a part of one of the two is. -/
theorem at?_merge (hv : v.Distinct) (h : (merge old? v).at? path = some x) :
    (∃ y, v.at? path = some y ∧ y.isTable = x.isTable) ∨
    ∃ y, (old?.bind fun old => old.at? path) = some y ∧ y.isTable = x.isTable := by
  induction path generalizing old? v with
  | nil =>
    obtain rfl := Option.some.inj h
    exact .inl ⟨v, rfl, (isTable_merge old? v).symm⟩
  | cons k path ih =>
    cases v with
    | table es =>
      rw [at?_merge_cons hv.keys] at h
      rcases hk : lookup? es k with _ | w
      · rw [hk] at h
        exact .inr ⟨x, h, rfl⟩
      · rw [hk] at h
        have hw : w.Distinct := hv.values _ (mem_of_lookup? hk)
        rw [at?, hk, ← lookup?_entriesOf_bind]
        exact ih hw h
    | _ =>
      rw [merge_of_isTable old? rfl, at?_cons_of_isTable rfl] at h
      cases h

/-- The leaf of an old value behind a key. -/
theorem lookup?_entriesOf_leafAt? (old? : Option Toml) (k : String) (path : List String) :
    ((lookup? (entriesOf old?) k).bind fun part => part.leafAt? path) =
      old?.bind fun old => old.leafAt? (k :: path) := by
  rcases old? with _ | old
  · rfl
  · cases old with
    | table fs => exact (leafAt?_table_cons fs k path).symm
    | _ => rfl

/-- A scalar or list is the only leaf, and no part of what it replaces was another. -/
theorem leafAt?_merge_of_isTable (hv : v.isTable = false) (hold : ∀ old ∈ old?, Toml.isTable old = false)
    (path : List String) :
    (merge old? v).leafAt? path = (v.leafAt? path).or (old?.bind fun old => old.leafAt? path) := by
  rw [merge_of_isTable old? hv]
  cases path with
  | nil =>
    rw [leafAt?_nil, hv]
    rfl
  | cons k path =>
    rw [leafAt?_cons_of_isTable hv, Option.none_or]
    rcases old? with _ | old
    · rfl
    · exact (leafAt?_cons_of_isTable (hold old rfl) k path).symm

/-- **A value over another.**  A value laid over one that is alike holds its own leaves, and those of the old one
elsewhere. -/
theorem leafAt?_merge (hv : v.Distinct) (halike : ∀ old ∈ old?, Alike old v) (path : List String) :
    (merge old? v).leafAt? path = (v.leafAt? path).or (old?.bind fun old => old.leafAt? path) := by
  induction path generalizing old? v with
  | nil =>
    have hsame : ∀ old ∈ old?, old.isTable = v.isTable := fun old hold => halike old hold [] old v rfl rfl
    cases hkind : v.isTable with
    | false => exact leafAt?_merge_of_isTable hkind (fun old hold => (hsame old hold).trans hkind) []
    | true =>
      rw [leafAt?_nil, leafAt?_nil, isTable_merge, hkind]
      rcases old? with _ | old
      · rfl
      · show none = leafAt? old []
        rw [leafAt?_nil, hsame old rfl, hkind]
        rfl
  | cons k path ih =>
    cases v with
    | table es =>
      rw [merge_table, leafAt?_table_cons, leafAt?_table_cons, lookup?_mergeEntries hv.keys,
        ← lookup?_entriesOf_leafAt?]
      rcases hk : lookup? es k with _ | w
      · rfl
      · apply ih (hv.values _ (mem_of_lookup? hk))
        -- what stood behind the key is alike to what is laid over it
        intro part hpart
        rcases old? with _ | old
        · cases hpart
        · cases old with
          | table fs => exact (halike _ rfl).entries hpart hk
          | _ => cases hpart
    | _ => exact leafAt?_merge_of_isTable rfl (fun old hold => halike old hold [] old _ rfl rfl) (k :: path)

/-! ## A test for values that are alike -/

mutual

/-- Whether a value is alike to another one, key by key. -/
def alike (w : Toml) : Toml → Bool
  | .table es => w.isTable && alikeEntries (entriesOf (some w)) es
  | _ => !w.isTable

/-- Whether the values of all entries are alike to those of other entries with the same keys. -/
def alikeEntries (fs : List (String × Toml)) : List (String × Toml) → Bool
  | [] => true
  | (k, v) :: es =>
    (match lookup? fs k with
      | some w => alike w v
      | none => true) && alikeEntries fs es

end

theorem alike_of_mem_alikeEntries {fs es : List (String × Toml)} (h : alikeEntries fs es) (hmem : (k, v) ∈ es)
    (hk : lookup? fs k = some w) : alike w v := by
  induction es with
  | nil => cases hmem
  | cons e es ih =>
    obtain ⟨k', v'⟩ := e
    rw [alikeEntries, Bool.and_eq_true] at h
    rcases List.mem_cons.mp hmem with hhead | hmem
    · obtain ⟨rfl, rfl⟩ := Prod.mk.inj hhead
      rw [hk] at h
      exact h.1
    · exact ih h.2 hmem

theorem alike_sound (h : alike w v) : Alike w v := by
  intro path x y hx hy
  induction path generalizing w v with
  | nil =>
    obtain rfl := Option.some.inj hx
    obtain rfl := Option.some.inj hy
    cases v with
    | table es =>
      rw [alike, Bool.and_eq_true] at h
      exact h.1
    | _ =>
      rw [alike, Bool.not_eq_true'] at h
      · exact h
      · exact nofun
  | cons k path ih =>
    cases v with
    | table es =>
      rw [alike, Bool.and_eq_true] at h
      cases w with
      | table fs =>
        rw [at?] at hx hy
        obtain ⟨w', hw', hx⟩ := Option.bind_eq_some_iff.mp hx
        obtain ⟨v', hv', hy⟩ := Option.bind_eq_some_iff.mp hy
        exact ih (alike_of_mem_alikeEntries h.2 (mem_of_lookup? hv') hw') hx hy
      | _ => cases hx
    | _ => cases hy

theorem alike_of_all {vs : List Toml} (h : vs.all fun w => vs.all (alike w)) : ∀ w ∈ vs, ∀ v ∈ vs, Alike w v :=
  fun w hw v hv => alike_sound (List.all_eq_true.mp (List.all_eq_true.mp h w hw) v hv)

/-! ## Values over each other -/

/-- Values laid over each other, the last one on top. -/
def overlaid (vs : List Toml) : Option Toml := vs.foldl (fun old? v => some (merge old? v)) none

theorem overlaid_concat (vs : List Toml) (v : Toml) : overlaid (vs ++ [v]) = some (merge (overlaid vs) v) := by
  rw [overlaid, List.foldl_append]
  rfl

variable {vs : List Toml}

theorem distinct_overlaid (hvs : ∀ v ∈ vs, v.Distinct) : ∀ m ∈ overlaid vs, m.Distinct := by
  induction vs using List.reverseRecOn with
  | nil => exact nofun
  | append_singleton vs v ih =>
    obtain ⟨hvs, hv⟩ := List.forall_mem_append.mp hvs
    intro m hm
    rw [overlaid_concat] at hm
    obtain rfl := Option.some.inj hm
    exact distinct_merge (hv v (List.mem_singleton_self v)) _ (ih hvs)

/-- Every part of values laid over each other is a table or not as a part of one of them is. -/
theorem at?_overlaid (hvs : ∀ v ∈ vs, v.Distinct) (h : ((overlaid vs).bind fun m => m.at? path) = some x) :
    ∃ v ∈ vs, ∃ y, v.at? path = some y ∧ y.isTable = x.isTable := by
  induction vs using List.reverseRecOn generalizing x with
  | nil => cases h
  | append_singleton vs v ih =>
    obtain ⟨hvs, hv⟩ := List.forall_mem_append.mp hvs
    rw [overlaid_concat] at h
    rcases at?_merge (hv v (List.mem_singleton_self v)) h with hnew | ⟨y, hy, hkind⟩
    · exact ⟨v, List.mem_concat_self, hnew⟩
    · obtain ⟨v', hmem, y', hy', hkind'⟩ := ih hvs hy
      exact ⟨v', List.mem_append_left _ hmem, y', hy', hkind'.trans hkind⟩

theorem isSome_overlaid (hv : v ∈ vs) : (overlaid vs).isSome := by
  rcases List.eq_nil_or_concat vs with rfl | ⟨vs', last, rfl⟩
  · cases hv
  · rw [List.concat_eq_append, overlaid_concat]
    rfl

/-- When values that are alike make a table, they are tables. -/
theorem isTable_of_overlaid (hvs : ∀ v ∈ vs, v.Distinct) (halike : ∀ v ∈ vs, ∀ w ∈ vs, Alike v w)
    (htable : ∀ m ∈ overlaid vs, Toml.isTable m) : ∀ v ∈ vs, v.isTable := by
  intro v hv
  obtain ⟨m, hm⟩ := Option.isSome_iff_exists.mp (isSome_overlaid hv)
  have hpart : ((overlaid vs).bind fun m => m.at? []) = some m := by
    rw [hm]
    rfl
  obtain ⟨w, hw, y, hy, hkind⟩ := at?_overlaid hvs hpart
  rw [halike v hv w hw [] v y rfl hy, hkind]
  exact htable m hm

/-- Tables laid over each other have the keys of all of them. -/
theorem isSome_at?_overlaid (hvs : ∀ v ∈ vs, v.Distinct) (htables : ∀ v ∈ vs, Toml.isTable v) (k : String) :
    ((overlaid vs).bind fun m => m.at? [k]).isSome ↔ ∃ v ∈ vs, (v.at? [k]).isSome := by
  induction vs using List.reverseRecOn with
  | nil =>
    constructor
    · intro h
      cases h
    · rintro ⟨v, hv, -⟩
      cases hv
  | append_singleton vs v ih =>
    obtain ⟨hvs, hv⟩ := List.forall_mem_append.mp hvs
    obtain ⟨htables, htable⟩ := List.forall_mem_append.mp htables
    rw [overlaid_concat]
    have hlast : ((merge (overlaid vs) v).at? [k]).isSome ↔
        (v.at? [k]).isSome ∨ ((overlaid vs).bind fun m => m.at? [k]).isSome := by
      cases v with
      | table es =>
        rw [at?_merge_cons (hv _ (List.mem_singleton_self _)).keys, at?]
        rcases lookup? es k with _ | w
        · exact (or_iff_right nofun).symm
        · exact ⟨fun _ => .inl rfl, fun _ => rfl⟩
      | _ => exact nomatch htable _ (List.mem_singleton_self _)
    show ((merge (overlaid vs) v).at? [k]).isSome ↔ _
    rw [hlast, ih hvs htables]
    constructor
    · rintro (hnew | ⟨w, hw, hold⟩)
      · exact ⟨v, List.mem_concat_self, hnew⟩
      · exact ⟨w, List.mem_append_left _ hw, hold⟩
    · rintro ⟨w, hw, hset⟩
      rcases List.mem_append.mp hw with hw | hw
      · exact .inr ⟨w, hw, hset⟩
      · obtain rfl := List.mem_singleton.mp hw
        exact .inl hset

/-- **The last one counts.**  Of values that are alike and laid over each other, the last one with a leaf at a path
gives it. -/
theorem leafAt?_overlaid (hvs : ∀ v ∈ vs, v.Distinct) (halike : ∀ v ∈ vs, ∀ w ∈ vs, Alike v w)
    (path : List String) :
    ((overlaid vs).bind fun m => m.leafAt? path) = vs.reverse.findSome? fun v => v.leafAt? path := by
  induction vs using List.reverseRecOn with
  | nil => rfl
  | append_singleton vs v ih =>
    obtain ⟨hvs', hv⟩ := List.forall_mem_append.mp hvs
    have hlast : v ∈ vs ++ [v] := List.mem_concat_self
    -- a part of the values below is a table or not as a part of one of them is, and that one is alike to the last
    have hbelow : ∀ m ∈ overlaid vs, Alike m v := by
      intro m hm path x y hx hy
      have hpart : ((overlaid vs).bind fun m => m.at? path) = some x := by
        rw [hm]
        exact hx
      obtain ⟨w, hw, z, hz, hkind⟩ := at?_overlaid hvs' hpart
      exact hkind.symm.trans (halike w (List.mem_append_left _ hw) v hlast path z y hz hy)
    rw [overlaid_concat, List.reverse_concat, List.findSome?_cons,
      ← ih hvs' fun a ha b hb => halike a (List.mem_append_left _ ha) b (List.mem_append_left _ hb)]
    show (merge (overlaid vs) v).leafAt? path = _
    rw [leafAt?_merge (hv v (List.mem_singleton_self v)) hbelow]
    cases v.leafAt? path <;> rfl

end Settings

end TagLint

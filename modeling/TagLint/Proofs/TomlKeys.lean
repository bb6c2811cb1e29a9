import Mathlib.Data.List.Nodup
import TagLint.Toml.Reader

/-!
# TOML keys — no key twice in a table

* `Distinct`: a value in which no table has a key twice, at any depth that is reached through tables.
* `Node.Tidy`, `Table.Tidy`: the same for a document while it is read.  Giving a value to a key and opening a table both
  keep it (`tidy_assign`, `tidy_updateAt`), so every line does (`tidy_add`).
* **`distinct_of_parse`**: the table of a text has no key twice.
-/

namespace TagLint.Toml

variable {α : Type}

/-! ## Entries -/

theorem lookup?_cons (k' : String) (v : α) (es : List (String × α)) (k : String) :
    lookup? ((k', v) :: es) k = if k' = k then some v else lookup? es k := by
  rw [lookup?, List.find?_cons]
  by_cases hk : k' = k
  · rw [if_pos hk, beq_iff_eq.mpr hk]
    rfl
  · rw [if_neg hk, beq_eq_false_iff_ne.mpr hk]
    rfl

theorem mem_of_lookup? {es : List (String × α)} {k : String} {v : α} (h : lookup? es k = some v) : (k, v) ∈ es := by
  rw [lookup?, Option.map_eq_some_iff] at h
  obtain ⟨⟨k', v'⟩, hfind, rfl⟩ := h
  obtain rfl : k' = k := by simpa using List.find?_some hfind
  exact List.mem_of_find?_eq_some hfind

theorem lookup?_eq_none {es : List (String × α)} {k : String} (h : k ∉ es.map (·.1)) : lookup? es k = none := by
  rw [Option.eq_none_iff_forall_ne_some]
  intro v hv
  exact h (List.mem_map.mpr ⟨_, mem_of_lookup? hv, rfl⟩)

theorem lookup?_of_mem {es : List (String × α)} (hkeys : (es.map (·.1)).Nodup) {k : String} {v : α}
    (h : (k, v) ∈ es) : lookup? es k = some v := by
  induction es with
  | nil => cases h
  | cons e es ih =>
    obtain ⟨k', v'⟩ := e
    obtain ⟨hnew, hrest⟩ := List.nodup_cons.mp hkeys
    rw [lookup?_cons]
    rcases List.mem_cons.mp h with hhead | h
    · obtain ⟨rfl, rfl⟩ := Prod.mk.inj hhead
      rw [if_pos rfl]
    · have hne : k' ≠ k := fun hk => hnew (List.mem_map.mpr ⟨_, h, hk.symm⟩)
      rw [if_neg hne, ih hrest h]

theorem lookup?_eq_some_iff {es : List (String × α)} (hkeys : (es.map (·.1)).Nodup) {k : String} {v : α} :
    lookup? es k = some v ↔ (k, v) ∈ es := ⟨mem_of_lookup?, lookup?_of_mem hkeys⟩

theorem mem_put {es : List (String × α)} {k : String} {v : α} {e : String × α} (h : e ∈ put k v es) :
    e = (k, v) ∨ e ∈ es := by
  induction es with
  | nil => exact .inl (List.mem_singleton.mp h)
  | cons e' es ih =>
    rw [put] at h
    split_ifs at h with hkey
    · rcases List.mem_cons.mp h with rfl | h
      · exact .inl rfl
      · exact .inr (List.mem_cons_of_mem _ h)
    · rcases List.mem_cons.mp h with rfl | h
      · exact .inr List.mem_cons_self
      · exact (ih h).imp_right (List.mem_cons_of_mem _)

theorem nodup_keys_put {es : List (String × α)} (h : (es.map (·.1)).Nodup) (k : String) (v : α) :
    ((put k v es).map (·.1)).Nodup := by
  induction es with
  | nil => exact List.nodup_singleton k
  | cons e es ih =>
    obtain ⟨hnew, hrest⟩ := List.nodup_cons.mp h
    rw [put]
    split_ifs with hkey
    · rw [List.map_cons, ← hkey]
      exact h
    · refine List.nodup_cons.mpr ⟨fun hmem => ?_, ih hrest⟩
      obtain ⟨e', he', hsame⟩ := List.mem_map.mp hmem
      rcases mem_put he' with rfl | he'
      · exact hkey hsame.symm
      · exact hnew (hsame ▸ List.mem_map_of_mem he')

/-! ## Values and documents -/

def isTable : Toml → Bool
  | .table _ => true
  | _ => false

def isScalar : Toml → Bool
  | .table _ | .array _ => false
  | _ => true

theorem isTable_of_isScalar {v : Toml} (h : v.isScalar) : v.isTable = false := by
  cases v with
  | table => cases h
  | _ => rfl

/-- No table has a key twice, at any depth that is reached through tables. -/
inductive Distinct : Toml → Prop
  | table {entries : List (String × Toml)} (hkeys : (entries.map (·.1)).Nodup)
      (hvalues : ∀ e ∈ entries, Distinct e.2) : Distinct (.table entries)
  | plain {v : Toml} (hv : v.isTable = false) : Distinct v

/-- No key twice in a part of a document. -/
inductive Node.Tidy : Node → Prop
  | value {v : Toml} (hv : v.Distinct) : Tidy (.value v)
  | table {origin : Origin} {entries : List (String × Node)} (hkeys : (entries.map (·.1)).Nodup)
      (hnodes : ∀ e ∈ entries, Tidy e.2) : Tidy (.table origin entries)
  | tables (elements : List (List (String × Node))) : Tidy (.tables elements)

namespace Table

/-- No key twice in the table or further down. -/
structure Tidy (t : Table) : Prop where
  keys : (t.map (·.1)).Nodup
  nodes : ∀ e ∈ t, e.2.Tidy

theorem tidy_nil : Tidy [] := ⟨List.nodup_nil, nofun⟩

variable {t t' : Table} {v : Toml} {n : Node} {k : String}

theorem Tidy.put (h : t.Tidy) (k : String) (hn : n.Tidy) : Tidy (put k n t) where
  keys := nodup_keys_put h.keys k n
  nodes e he := by
    rcases mem_put he with rfl | he
    · exact hn
    · exact h.nodes e he

theorem Tidy.table (h : t.Tidy) (origin : Origin) : (Node.table origin t).Tidy := .table h.keys h.nodes

/-- A table in a tidy table is tidy. -/
theorem Tidy.inner (h : t.Tidy) {origin : Origin} {inner : Table} (hk : lookup? t k = some (.table origin inner)) :
    inner.Tidy := by
  cases h.nodes _ (mem_of_lookup? hk) with
  | table hkeys hnodes => exact ⟨hkeys, hnodes⟩

theorem tidy_assign (hv : v.Distinct) {ks : List String} (ht : t.Tidy) (h : assign v ks t = some t') : t'.Tidy := by
  induction ks generalizing t t' with
  | nil => cases h
  | cons k ks ih =>
    cases ks with
    | nil =>
      rw [assign] at h
      split_ifs at h
      obtain rfl := Option.some.inj h
      exact ht.put k (.value hv)
    | cons k' ks =>
      rw [assign] at h
      split at h
      · -- a new table on the way
        obtain ⟨inner, hinner, rfl⟩ := Option.map_eq_some_iff.mp h
        exact ht.put k ((ih tidy_nil hinner).table _)
      · -- one that is there already
        rename_i hk
        split_ifs at h
        obtain ⟨inner, hinner, rfl⟩ := Option.map_eq_some_iff.mp h
        exact ht.put k ((ih (ht.inner hk) hinner).table _)
      · -- one in a list, of which nothing is asked
        split_ifs at h
        obtain ⟨inner, -, rfl⟩ := Option.map_eq_some_iff.mp h
        exact ht.put k (.tables _)
      · cases h

/-- What keeps a table tidy may be done to any table on the way. -/
theorem tidy_updateAt {f : Table → Option Table} (hf : ∀ t t', f t = some t' → t.Tidy → t'.Tidy) {ks : List String}
    (ht : t.Tidy) (h : updateAt f ks t = some t') : t'.Tidy := by
  induction ks generalizing t t' with
  | nil => exact hf t t' h ht
  | cons k ks ih =>
    rw [updateAt] at h
    split at h
    · obtain ⟨inner, hinner, rfl⟩ := Option.map_eq_some_iff.mp h
      exact ht.put k ((ih tidy_nil hinner).table _)
    · rename_i hk
      obtain ⟨inner, hinner, rfl⟩ := Option.map_eq_some_iff.mp h
      exact ht.put k ((ih (ht.inner hk) hinner).table _)
    · obtain ⟨inner, -, rfl⟩ := Option.map_eq_some_iff.mp h
      exact ht.put k (.tables _)
    · cases h

theorem tidy_openTable (k : String) (t t' : Table) (h : openTable k t = some t') (ht : t.Tidy) : t'.Tidy := by
  rw [openTable] at h
  split at h
  · obtain rfl := Option.some.inj h
    exact ht.put k (tidy_nil.table _)
  · rename_i hk
    obtain rfl := Option.some.inj h
    exact ht.put k ((ht.inner hk).table _)
  · cases h

theorem tidy_openElement (k : String) (t t' : Table) (h : openElement k t = some t') (ht : t.Tidy) : t'.Tidy := by
  rw [openElement] at h
  split at h
  · obtain rfl := Option.some.inj h
    exact ht.put k (.tables _)
  · obtain rfl := Option.some.inj h
    exact ht.put k (.tables _)
  · cases h

end Table

/-! ## The finished document -/

theorem finishEntries_eq_map (t : Table) : finishEntries t = t.map fun e => (e.1, e.2.finish) := by
  induction t with
  | nil => rfl
  | cons e t ih =>
    obtain ⟨k, n⟩ := e
    rw [finishEntries, ih, List.map_cons]

theorem Node.distinct_finish {n : Node} (h : n.Tidy) : n.finish.Distinct := by
  induction h with
  | value hv =>
    rw [finish]
    exact hv
  | table hkeys _ ih =>
    rw [finish, finishEntries_eq_map]
    refine .table ?_ ?_
    · rw [List.map_map]
      exact hkeys
    · intro _ hmem
      obtain ⟨e, he, rfl⟩ := List.mem_map.mp hmem
      exact ih e he
  | tables =>
    rw [finish]
    exact .plain rfl

theorem Table.Tidy.distinct {t : Table} (h : t.Tidy) : (Toml.table (finishEntries t)).Distinct := by
  have hfinish := Node.distinct_finish (h.table .header)
  rwa [Node.finish] at hfinish

/-! ## Reading -/

theorem isTable_readFloat {cs : List Char} {v : Toml} (h : readFloat cs = some v) : v.isTable = false := by
  rw [readFloat] at h
  dsimp only at h
  split_ifs at h
  · obtain rfl := Option.some.inj h
    rfl
  · obtain rfl := Option.some.inj h
    rfl
  · obtain ⟨whole, -, h⟩ := Option.bind_eq_some_iff.mp h
    obtain ⟨⟨fraction, rest⟩, -, h⟩ := Option.bind_eq_some_iff.mp h
    obtain ⟨exponent, -, h⟩ := Option.bind_eq_some_iff.mp h
    split_ifs at h
    obtain rfl := Option.some.inj h
    rfl

theorem isTable_readScalar {cs : List Char} {v : Toml} (h : readScalar cs = some v) : v.isTable = false := by
  rw [readScalar] at h
  split_ifs at h
  · obtain rfl := Option.some.inj h
    rfl
  · obtain rfl := Option.some.inj h
    rfl
  · split at h
    · obtain rfl := Option.some.inj h
      rfl
    · obtain rfl := Option.some.inj h
      rfl
    · exact isTable_readFloat h

theorem isTable_readPlain {cs rest : List Char} {v : Toml} (h : readPlain cs = some (v, rest)) :
    v.isTable = false := by
  rw [readPlain] at h
  dsimp only at h
  split_ifs at h
  · obtain ⟨v, hv, same⟩ := Option.map_eq_some_iff.mp h
    obtain rfl := (Prod.mk.inj same).1
    exact isTable_readScalar hv
  · obtain ⟨v, hv, same⟩ := Option.map_eq_some_iff.mp h
    obtain rfl := (Prod.mk.inj same).1
    exact isTable_readScalar hv

theorem isTable_readItems {fuel depth : ℕ} {done : List Toml} {cs rest : List Char} {v : Toml}
    (h : readItems fuel depth done cs = some (v, rest)) : v.isTable = false := by
  induction fuel generalizing done cs with
  | zero =>
    rw [readItems] at h
    cases h
  | succ fuel ih =>
    rw [readItems] at h
    obtain ⟨gap, -, h⟩ := Option.bind_eq_some_iff.mp h
    split at h
    · obtain rfl := (Prod.mk.inj (Option.some.inj h)).1
      rfl
    · obtain ⟨⟨item, after⟩, -, h⟩ := Option.bind_eq_some_iff.mp h
      obtain ⟨gap, -, h⟩ := Option.bind_eq_some_iff.mp h
      split at h
      · exact ih h
      · obtain rfl := (Prod.mk.inj (Option.some.inj h)).1
        rfl
      · cases h

/-- The readers of values and of tables in braces call each other, each with less fuel. -/
theorem distinct_readers (fuel : ℕ) :
    (∀ depth cs v rest, readValueUpTo fuel depth cs = some (v, rest) → v.Distinct) ∧
    ∀ depth t cs v rest, Table.Tidy t → readMembers fuel depth t cs = some (v, rest) → v.Distinct := by
  induction fuel with
  | zero =>
    constructor
    · intro depth cs v rest h
      rw [readValueUpTo] at h
      cases h
    · intro depth t cs v rest _ h
      rw [readMembers] at h
      cases h
  | succ fuel ih =>
    obtain ⟨hvalue, hmembers⟩ := ih
    constructor
    · intro depth cs v rest h
      unfold readValueUpTo at h
      split at h
      · obtain ⟨r, -, same⟩ := Option.map_eq_some_iff.mp h
        obtain rfl := (Prod.mk.inj same).1
        exact .plain rfl
      · obtain ⟨r, -, same⟩ := Option.map_eq_some_iff.mp h
        obtain rfl := (Prod.mk.inj same).1
        exact .plain rfl
      · split_ifs at h
        exact .plain (isTable_readItems h)
      · split_ifs at h
        exact hmembers _ _ _ _ _ Table.tidy_nil h
      · exact .plain (isTable_readPlain h)
    · intro depth t cs v rest ht h
      rw [readMembers] at h
      obtain ⟨gap, -, h⟩ := Option.bind_eq_some_iff.mp h
      split at h
      · obtain rfl := (Prod.mk.inj (Option.some.inj h)).1
        exact ht.distinct
      · obtain ⟨⟨key, after⟩, -, h⟩ := Option.bind_eq_some_iff.mp h
        obtain ⟨gap, -, h⟩ := Option.bind_eq_some_iff.mp h
        split at h
        · obtain ⟨gap, -, h⟩ := Option.bind_eq_some_iff.mp h
          obtain ⟨⟨item, after⟩, hitem, h⟩ := Option.bind_eq_some_iff.mp h
          obtain ⟨t', hassign, h⟩ := Option.bind_eq_some_iff.mp h
          have ht' : Table.Tidy t' := Table.tidy_assign (hvalue _ _ _ _ hitem) ht hassign
          obtain ⟨gap, -, h⟩ := Option.bind_eq_some_iff.mp h
          split at h
          · exact hmembers _ _ _ _ _ ht' h
          · obtain rfl := (Prod.mk.inj (Option.some.inj h)).1
            exact ht'.distinct
          · cases h
        · cases h

theorem distinct_readValue {cs rest : List Char} {v : Toml} (h : readValue cs = some (v, rest)) : v.Distinct :=
  (distinct_readers _).1 _ _ _ _ h

/-! ## Documents -/

/-- The value that a line gives has no key twice. -/
def Line.Distinct : Line → Prop
  | .assign _ v => v.Distinct
  | .openTable _ | .openElement _ => True

theorem distinct_readLine {cs rest : List Char} {line : Line} (h : readLine cs = some (line, rest)) :
    line.Distinct := by
  unfold readLine at h
  split at h
  · obtain ⟨⟨key, after⟩, -, h⟩ := Option.bind_eq_some_iff.mp h
    dsimp only at h
    split at h
    · obtain ⟨after, -, h⟩ := Option.bind_eq_some_iff.mp h
      obtain rfl := (Prod.mk.inj (Option.some.inj h)).1
      trivial
    · cases h
  · obtain ⟨⟨key, after⟩, -, h⟩ := Option.bind_eq_some_iff.mp h
    dsimp only at h
    split at h
    · obtain ⟨after, -, h⟩ := Option.bind_eq_some_iff.mp h
      obtain rfl := (Prod.mk.inj (Option.some.inj h)).1
      trivial
    · cases h
  · obtain ⟨⟨key, after⟩, -, h⟩ := Option.bind_eq_some_iff.mp h
    obtain ⟨⟨v, after⟩, hv, h⟩ := Option.bind_eq_some_iff.mp h
    obtain ⟨after, -, h⟩ := Option.bind_eq_some_iff.mp h
    obtain rfl := (Prod.mk.inj (Option.some.inj h)).1
    exact distinct_readValue hv

theorem distinct_readLines {count : ℕ} {cs : List Char} {lines : List Line} (h : readLines count cs = some lines) :
    ∀ line ∈ lines, line.Distinct := by
  induction count generalizing cs lines with
  | zero => cases h
  | succ count ih =>
    rw [readLines] at h
    obtain ⟨gap, -, h⟩ := Option.bind_eq_some_iff.mp h
    split at h
    · obtain rfl := Option.some.inj h
      exact nofun
    · obtain ⟨⟨line, after⟩, hline, h⟩ := Option.bind_eq_some_iff.mp h
      obtain ⟨lines', hlines, h⟩ := Option.bind_eq_some_iff.mp h
      obtain rfl := Option.some.inj h
      exact List.forall_mem_cons.mpr ⟨distinct_readLine hline, ih hlines⟩

theorem Draft.tidy_updateParent {d d' : Draft} {key : List String} {f : String → Table → Option Table}
    (hf : ∀ k t t', f k t = some t' → t.Tidy → t'.Tidy) (h : d.updateParent key f = some d') (hd : d.root.Tidy) :
    d'.root.Tidy := by
  obtain ⟨last, -, h⟩ := Option.bind_eq_some_iff.mp h
  obtain ⟨root, hroot, h⟩ := Option.bind_eq_some_iff.mp h
  obtain rfl := Option.some.inj h
  exact Table.tidy_updateAt (hf last) hd hroot

/-- Lines keep a document tidy. -/
theorem Draft.tidy_add {d d' : Draft} {line : Line} (hline : line.Distinct) (h : d.add line = some d')
    (hd : d.root.Tidy) : d'.root.Tidy := by
  cases line with
  | openTable key => exact tidy_updateParent Table.tidy_openTable h hd
  | openElement key => exact tidy_updateParent Table.tidy_openElement h hd
  | assign key v =>
    obtain ⟨root, hroot, h⟩ := Option.bind_eq_some_iff.mp h
    obtain rfl := Option.some.inj h
    exact Table.tidy_updateAt (fun t t' hassign ht => Table.tidy_assign hline ht hassign) hd hroot

theorem Draft.tidy_foldlM {d d' : Draft} {lines : List Line} (hlines : ∀ line ∈ lines, line.Distinct)
    (h : lines.foldlM Draft.add d = some d') (hd : d.root.Tidy) : d'.root.Tidy := by
  induction lines generalizing d with
  | nil =>
    obtain rfl := Option.some.inj h
    exact hd
  | cons line lines ih =>
    obtain ⟨hline, hrest⟩ := List.forall_mem_cons.mp hlines
    obtain ⟨next, hnext, h⟩ := Option.bind_eq_some_iff.mp h
    exact ih hrest h (tidy_add hline hnext hd)

/-- **The table of a text has no key twice.** -/
theorem distinct_of_parse {text : String} {entries : List (String × Toml)} (h : parse text = some entries) :
    (Toml.table entries).Distinct := by
  obtain ⟨lines, hlines, h⟩ := Option.bind_eq_some_iff.mp h
  obtain ⟨draft, hdraft, h⟩ := Option.bind_eq_some_iff.mp h
  obtain rfl := Option.some.inj h
  exact (Draft.tidy_foldlM (distinct_readLines hlines) hdraft Table.tidy_nil).distinct

end TagLint.Toml

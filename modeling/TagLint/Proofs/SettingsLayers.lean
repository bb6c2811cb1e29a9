import TagLint.Files.Snapshot
import TagLint.Proofs.LayerNames
import TagLint.Proofs.OptionReadings
import TagLint.Settings.Files

/-!
# Settings layers — which file a setting comes from

* `text_readFile?_eq_some_iff`: a settings file that is there counts with its text, and nothing else counts.
* `leafAt?_toJson`: a value holds as JSON what it holds at every path.
* `load_eq_error`: a file that is not well-formed spoils the settings; `ofSettings_eq_ok`: well-typed values give them.
* `leafAt?_rules`: the rules hold the leaves of their table.

**`load_layers`** puts these together with the values that are left when files are laid over each other.
-/

namespace TagLint

namespace Json

/-! ## Leaves of JSON values -/

def isObject : Json → Bool
  | .object _ => true
  | _ => false

/-- The value other than an object that stands at a path of keys. -/
def leafAt? (j : Json) (path : List String) : Option Json :=
  (j.at? (path.map .key)).filter fun part => !part.isObject

theorem isObject_canonical (j : Json) : j.canonical.isObject = j.isObject := by
  cases j with
  | object members =>
    rw [canonical_object]
    rfl
  | _ => rfl

theorem leafAt?_canonical (j : Json) (path : List String) :
    j.canonical.leafAt? path = (j.leafAt? path).map canonical := by
  rw [leafAt?, leafAt?, at?_canonical, Option.filter_map]
  congr 2
  funext part
  show (!part.canonical.isObject) = !part.isObject
  rw [isObject_canonical]

end Json

namespace FileSystem

variable {fs : FileSystem} {p : Path} {text : String}

theorem textOf?_eq_some_iff : fs.textOf? p = some text ↔ fs.read p = .ok text ∨ fs.read p = .error (.notText text) := by
  rw [textOf?]
  rcases fs.read p with e | text'
  · cases e <;> simp
  · simp

theorem hasFile_eq_false_iff : fs.hasFile p = false ↔ ∃ e, fs.read p = .error e ∧ e.isAbsence := by
  rw [hasFile]
  rcases fs.read p with e | text' <;> simp

theorem hasFile_of_textOf? (h : fs.textOf? p = some text) : fs.hasFile p := by
  rw [hasFile]
  rcases textOf?_eq_some_iff.mp h with hread | hread
  · rw [hread]
  · rw [hread]
    rfl

end FileSystem

namespace Settings

open Toml

variable {fs : FileSystem} {v : Toml} {id : String} {path : List String} {files : List (String × String)}
  {settings : List (String × Setting)}

/-! ## Values as JSON -/

theorem isObject_toJson (v : Toml) : (toJson v).isObject = v.isTable := by
  cases v <;> rfl

theorem toJsonMembers_eq_map (es : List (String × Toml)) : toJsonMembers es = es.map fun e => (e.1, toJson e.2) := by
  induction es with
  | nil => rfl
  | cons e es ih =>
    obtain ⟨k, v⟩ := e
    rw [toJsonMembers, ih, List.map_cons]

/-- Of distinct keys the last entry is the only one. -/
theorem lastOf?_eq_lookup? {α : Type} {es : List (String × α)} (hkeys : (es.map (·.1)).Nodup) (k : String) :
    lastOf? es k = lookup? es k := by
  have hreverse : lastOf? es k = lookup? es.reverse k := rfl
  have hkeys' : (es.reverse.map (·.1)).Nodup := by
    rw [List.map_reverse]
    exact List.nodup_reverse.mpr hkeys
  apply Option.ext
  intro v
  rw [hreverse, lookup?_eq_some_iff hkeys', lookup?_eq_some_iff hkeys, List.mem_reverse]

/-- A value holds as JSON what it holds at every path. -/
theorem at?_toJson (hv : v.Distinct) (path : List String) :
    (toJson v).at? (path.map .key) = (v.at? path).map toJson := by
  induction path generalizing v with
  | nil => rfl
  | cons k path ih =>
    rw [List.map_cons, Json.at?]
    cases v with
    | table es =>
      have hpart : (toJson (.table es)).part? (.key k) = (lookup? es k).map toJson := by
        rw [toJson, toJsonMembers_eq_map]
        show lastOf? (es.map fun e => (e.1, toJson e.2)) k = _
        rw [lastOf?_map, lastOf?_eq_lookup? hv.keys]
      rw [hpart, Toml.at?]
      rcases hk : lookup? es k with _ | w
      · rfl
      · exact ih (hv.values _ (mem_of_lookup? hk))
    | _ => rfl

theorem leafAt?_toJson (hv : v.Distinct) (path : List String) :
    (toJson v).leafAt? path = (v.leafAt? path).map toJson := by
  rw [Json.leafAt?, Toml.leafAt?, at?_toJson hv, Option.filter_map]
  congr 2
  funext part
  show (!(toJson part).isObject) = !part.isTable
  rw [isObject_toJson]

/-! ## Rules -/

theorem get?_rulesOf? {rules : RuleConfig} (hv : v.Distinct) (h : rulesOf? v = some rules) (id : String) :
    rules.get? id = (v.at? [id]).map fun w => .ofWritten (toJson w) := by
  cases v with
  | table es =>
    obtain rfl := Option.some.inj h
    rw [RuleConfig.ofMembers, SortedMap.get?_ofList, toJsonMembers_eq_map, List.map_map]
    have hlast := lastOf?_map (fun w => RuleOption.ofWritten (toJson w)) es id
    rw [lastOf?_eq_lookup? hv.keys] at hlast
    rw [Toml.at?]
    apply hlast.trans
    cases lookup? es id <;> rfl
  | _ => cases h

theorem isTable_of_rulesOf? (h : (rulesOf? v).isSome) : v.isTable := by
  cases v with
  | table => rfl
  | _ => cases h

/-- The rules hold the leaves of their table. -/
theorem leafAt?_rules {rules : RuleConfig} (hv : v.Distinct) (h : rulesOf? v = some rules) (id : String)
    (path : List String) :
    ((rules.get? id).bind fun option => option.toValue.leafAt? path) =
      (v.leafAt? (id :: path)).map fun leaf => (toJson leaf).canonical := by
  rw [get?_rulesOf? hv h]
  cases v with
  | table es =>
    rw [leafAt?_table_cons, Toml.at?]
    rcases hk : lookup? es id with _ | w
    · rfl
    · have hw : w.Distinct := hv.values _ (mem_of_lookup? hk)
      show (RuleOption.ofWritten (toJson w)).toValue.leafAt? path = (w.leafAt? path).map _
      rw [RuleOption.toValue_ofWritten, Json.leafAt?_canonical, leafAt?_toJson hw, Option.map_map]
      rfl
  | _ => cases h

section Overlaid

variable {vs : List Toml} (hvs : ∀ v ∈ vs, v.Distinct) (halike : ∀ v ∈ vs, ∀ w ∈ vs, Alike v w)
  (htyped : ∀ m ∈ overlaid vs, (rulesOf? m).isSome)

include hvs halike htyped

/-- Rules from values laid over each other hold the last leaf at every path. -/
theorem leafAt?_rules_overlaid (id : String) (path : List String) :
    (((((overlaid vs).bind rulesOf?).getD .empty).get? id).bind fun option => option.toValue.leafAt? path) =
      (vs.reverse.findSome? fun v => v.leafAt? (id :: path)).map fun leaf => (toJson leaf).canonical := by
  rw [← leafAt?_overlaid hvs halike]
  have hdistinct := distinct_overlaid hvs
  rcases hm : overlaid vs with _ | m
  · rfl
  · rw [hm] at htyped hdistinct
    obtain ⟨rules, hrules⟩ := Option.isSome_iff_exists.mp (htyped m rfl)
    show ((((rulesOf? m).getD .empty).get? id).bind _) = _
    rw [hrules]
    exact leafAt?_rules (hdistinct m rfl) hrules id path

/-- Such rules have the ids of all the values. -/
theorem isSome_get?_rules_overlaid (id : String) :
    ((((overlaid vs).bind rulesOf?).getD .empty).get? id).isSome ↔ ∃ v ∈ vs, (v.at? [id]).isSome := by
  have htables := isTable_of_overlaid hvs halike fun m hm => isTable_of_rulesOf? (htyped m hm)
  rw [← isSome_at?_overlaid hvs htables]
  have hdistinct := distinct_overlaid hvs
  rcases hm : overlaid vs with _ | m
  · rfl
  · rw [hm] at htyped hdistinct
    obtain ⟨rules, hrules⟩ := Option.isSome_iff_exists.mp (htyped m rfl)
    show (((rulesOf? m).getD .empty).get? id).isSome ↔ (m.at? [id]).isSome
    rw [hrules, ← Option.isSome_map (f := fun w => RuleOption.ofWritten (toJson w)) (x := m.at? [id]),
      ← get?_rulesOf? (hdistinct m rfl) hrules]
    rfl

end Overlaid

/-! ## Types -/

/-- The values that count are such as are wanted. -/
structure WellTyped (settings : List (String × Setting)) : Prop where
  enabled : ∀ v ∈ valueAt settings "enabled", (boolOf? v).isSome
  debug : ∀ v ∈ valueAt settings "debug", (boolOf? v).isSome
  rules : ∀ v ∈ valueAt settings "rules", (rulesOf? v).isSome

theorem truthAt_eq_ok {key : String} (h : ∀ v ∈ valueAt settings key, (boolOf? v).isSome) (default : Bool) :
    truthAt settings key default = .ok (((valueAt settings key).bind boolOf?).getD default) := by
  rw [truthAt]
  rw [valueAt] at h ⊢
  rcases hlook : lookup? settings key with _ | s
  · rfl
  · rw [hlook] at h
    obtain ⟨b, hb⟩ := Option.isSome_iff_exists.mp (h s.value rfl)
    show _ = Except.ok ((boolOf? s.value).getD default)
    dsimp only
    rw [hb]
    rfl

theorem rulesAt_eq_ok {key : String} (h : ∀ v ∈ valueAt settings key, (rulesOf? v).isSome) :
    rulesAt settings key = .ok (((valueAt settings key).bind rulesOf?).getD .empty) := by
  rw [rulesAt]
  rw [valueAt] at h ⊢
  rcases hlook : lookup? settings key with _ | s
  · rfl
  · rw [hlook] at h
    obtain ⟨rules, hrules⟩ := Option.isSome_iff_exists.mp (h s.value rfl)
    show _ = Except.ok ((rulesOf? s.value).getD .empty)
    dsimp only
    rw [hrules]
    rfl

theorem ofSettings_eq_ok (h : WellTyped settings) : ofSettings settings = .ok
    ⟨((valueAt settings "enabled").bind boolOf?).getD true, ((valueAt settings "debug").bind boolOf?).getD false,
      ((valueAt settings "rules").bind rulesOf?).getD .empty⟩ := by
  rw [ofSettings, truthAt_eq_ok h.enabled, truthAt_eq_ok h.debug, rulesAt_eq_ok h.rules]
  rfl

/-! ## Files -/

/-- The layers of files that are well-formed. -/
def layersOf (files : List (String × String)) : List Layer :=
  files.filterMap fun file => (Toml.parse file.2).map fun entries => ⟨file.1, entries⟩

theorem mapM_parseLayer_eq_ok (h : ∀ file ∈ files, (Toml.parse file.2).isSome) :
    files.mapM parseLayer = .ok (layersOf files) := by
  induction files with
  | nil => rfl
  | cons file files ih =>
    obtain ⟨hfile, hfiles⟩ := List.forall_mem_cons.mp h
    obtain ⟨entries, hentries⟩ := Option.isSome_iff_exists.mp hfile
    have hhead : layersOf (file :: files) = ⟨file.1, entries⟩ :: layersOf files := by
      rw [layersOf, List.filterMap_cons, hentries]
      rfl
    rw [List.mapM_cons, ih hfiles, parseLayer, hentries, hhead]
    rfl

theorem mapM_parseLayer_eq_error (h : ∃ file ∈ files, Toml.parse file.2 = none) :
    files.mapM parseLayer = .error .malformed := by
  induction files with
  | nil =>
    obtain ⟨file, hmem, -⟩ := h
    cases hmem
  | cons file files ih =>
    rw [List.mapM_cons, parseLayer]
    rcases hparse : Toml.parse file.2 with _ | entries
    · rfl
    · have hrest : ∃ file ∈ files, Toml.parse file.2 = none := by
        obtain ⟨bad, hmem, hbad⟩ := h
        rcases List.mem_cons.mp hmem with rfl | hmem
        · rw [hparse] at hbad
          cases hbad
        · exact ⟨bad, hmem, hbad⟩
      rw [ih hrest]
      rfl

/-- A settings file is there: the first path that leads to a file leads to this text.  Bytes that are no text count as
the text that they are repaired to. -/
def HasText (fs : FileSystem) (p : Path) (text : String) : Prop :=
  ∃ before q after, spellings p = before ++ q :: after ∧
    (∀ r ∈ before, ∃ e, fs.read r = .error e ∧ e.isAbsence) ∧
    (fs.read q = .ok text ∨ fs.read q = .error (.notText text))

theorem hasText_iff {p : Path} {text : String} :
    HasText fs p text ↔ ∃ q, place? fs p = some q ∧ fs.textOf? q = some text := by
  constructor
  · rintro ⟨before, q, after, hsplit, hbefore, hread⟩
    have htext : fs.textOf? q = some text := FileSystem.textOf?_eq_some_iff.mpr hread
    refine ⟨q, ?_, htext⟩
    rw [place?, List.find?_eq_some_iff_append]
    refine ⟨FileSystem.hasFile_of_textOf? htext, before, after, hsplit, fun r hr => ?_⟩
    rw [FileSystem.hasFile_eq_false_iff.mpr (hbefore r hr)]
    rfl
  · rintro ⟨q, hplace, htext⟩
    obtain ⟨-, before, after, hsplit, hbefore⟩ := List.find?_eq_some_iff_append.mp hplace
    refine ⟨before, q, after, hsplit, fun r hr => ?_, FileSystem.textOf?_eq_some_iff.mp htext⟩
    exact FileSystem.hasFile_eq_false_iff.mp (by simpa using hbefore r hr)

/-- A settings file that is there counts with its text, and nothing else counts. -/
theorem text_readFile?_eq_some_iff {p : Path} {text : String} (base : Path) :
    (readFile? fs base p).map (·.2) = some text ↔ ∃ whole, HasText fs p whole ∧ withoutMark whole = text := by
  simp only [hasText_iff, readFile?, Option.bind_eq_bind, Option.map_eq_some_iff, Option.bind_eq_some_iff]
  constructor
  · rintro ⟨file, ⟨q, hplace, whole, hwhole, hfile⟩, rfl⟩
    obtain rfl := Option.some.inj hfile
    exact ⟨whole, ⟨q, hplace, hwhole⟩, rfl⟩
  · rintro ⟨whole, ⟨q, hplace, hwhole⟩, rfl⟩
    exact ⟨_, ⟨q, hplace, whole, hwhole, rfl⟩, rfl⟩

/-! ## Settings from files -/

/-- Everything is as the last of some files sets it: the two truth values, and every scalar and list below the rules.
What no file sets has its default. -/
structure TakesLast (contents : List (List (String × Toml))) (s : Settings) : Prop where
  enabled : s.enabled = ((lastSet contents ["enabled"]).bind boolOf?).getD true
  debug : s.debug = ((lastSet contents ["debug"]).bind boolOf?).getD false
  leaves : ∀ id path, ((s.rules.get? id).bind fun option => option.toValue.leafAt? path) =
    (lastSet contents ("rules" :: id :: path)).map fun v => (toJson v).canonical
  ids : ∀ id, (s.rules.get? id).isSome ↔ ∃ c ∈ contents, ((Toml.table c).at? ["rules", id]).isSome

/-- A path is set under a name in one of some files when one of the values of the name has it. -/
theorem exists_isSome_at?_iff (contents : List (List (String × Toml))) (name : String) (path : List String) :
    (∃ v ∈ contents.filterMap fun c => lookup? c name, (v.at? path).isSome) ↔
      ∃ c ∈ contents, ((Toml.table c).at? (name :: path)).isSome := by
  constructor
  · rintro ⟨v, hv, hset⟩
    obtain ⟨c, hc, hlook⟩ := List.mem_filterMap.mp hv
    refine ⟨c, hc, ?_⟩
    rw [Toml.at?, hlook]
    exact hset
  · rintro ⟨c, hc, hset⟩
    rw [Toml.at?] at hset
    obtain ⟨part, hpart⟩ := Option.isSome_iff_exists.mp hset
    obtain ⟨v, hlook, hpart⟩ := Option.bind_eq_some_iff.mp hpart
    exact ⟨v, List.mem_filterMap.mpr ⟨c, hc, hlook⟩, Option.isSome_iff_exists.mpr ⟨part, hpart⟩⟩

theorem isScalar_of_boolOf? (h : (boolOf? v).isSome) : v.isScalar := by
  cases v with
  | array | table => cases h
  | _ => rfl

theorem keyPath_rules : keyPath "rules" = ("rules", []) := by decide

/-- Well-typed layers of alike values give settings, and these take the last of everything. -/
theorem takesLast_of_layers {layers : List Layer} (hdistinct : ∀ l ∈ layers, (Toml.table l.entries).Distinct)
    (hdot : ∀ l ∈ layers, ∀ e ∈ l.entries, '.' ∉ e.1.toList)
    (halike : ∀ v ∈ layers.flatMap fun l => given "rules" l.entries,
      ∀ w ∈ layers.flatMap fun l => given "rules" l.entries, Alike v w)
    (htyped : WellTyped (layAll layers)) :
    ∃ s, ofSettings (layAll layers) = .ok s ∧ TakesLast (layers.map (·.entries)) s := by
  have hkeys : ∀ l ∈ layers, (l.entries.map (·.1)).Nodup := fun l hl => (hdistinct l hl).keys
  have htruth {name : String} (hname : keyPath name = (name, []))
      (h : ∀ v ∈ valueAt (layAll layers) name, (boolOf? v).isSome) :
      lastSet (layers.map (·.entries)) [name] = valueAt (layAll layers) name :=
    lastSet_of_isScalar hname hkeys hdot fun v hv => isScalar_of_boolOf? (h v hv)
  have hrules := valueAt_of_isTable keyPath_rules hkeys hdot halike fun v hv => isTable_of_rulesOf? (htyped.rules v hv)
  have hrulesTyped := htyped.rules
  rw [hrules] at hrulesTyped
  have hfile : ∀ v ∈ layers.filterMap fun l => lookup? l.entries "rules",
      v.Distinct ∧ v ∈ layers.flatMap fun l => given "rules" l.entries := by
    intro v hv
    obtain ⟨l, hl, hlook⟩ := List.mem_filterMap.mp hv
    exact ⟨(hdistinct l hl).values _ (mem_of_lookup? hlook),
      List.mem_flatMap.mpr ⟨l, hl, mem_given_of_lookup? keyPath_rules hlook⟩⟩
  have hvs := fun v hv => (hfile v hv).1
  have halike' := fun v hv w hw => halike v (hfile v hv).2 w (hfile w hw).2
  have hcontents : ((layers.map (·.entries)).filterMap fun c => lookup? c "rules") =
      layers.filterMap fun l => lookup? l.entries "rules" := List.filterMap_map
  refine ⟨_, ofSettings_eq_ok htyped, ⟨?_, ?_, ?_, ?_⟩⟩
  · rw [htruth (by decide) htyped.enabled]
  · rw [htruth (by decide) htyped.debug]
  · intro id path
    rw [hrules, lastSet_cons, hcontents]
    exact leafAt?_rules_overlaid hvs halike' hrulesTyped id path
  · intro id
    rw [hrules, isSome_get?_rules_overlaid hvs halike' hrulesTyped, ← hcontents]
    exact exists_isSome_at?_iff _ "rules" [id]

theorem entries_layersOf (files : List (String × String)) :
    (layersOf files).map (·.entries) = files.filterMap fun file => Toml.parse file.2 := by
  rw [layersOf, List.map_filterMap]
  congr 1
  funext file
  cases Toml.parse file.2 <;> rfl

/-- A user's file, and two files of a project, the one with the plain name as it is read; beside that stands one that
has its extension twice. -/
def layeredFiles (plain : Except ReadError String) : Snapshot :=
  [(⟨"/user/isls.toml"⟩, .ok "enabled = false\nrules.a = \x7bx = 1, y = 2\x7d\n"),
    (⟨"/p/.isls.toml"⟩, .ok "rules.a.x = 3\n"), (⟨"/p/isls.toml"⟩, plain), (⟨"/p/isls.toml.toml"⟩, .ok "debug = 0\n")]

/-- The settings from these files. -/
def layeredSettings (plain : Except ReadError String) : Except SettingsError Settings :=
  load (layeredFiles plain).fileSystem (some ⟨"/user/isls.toml"⟩) ⟨"/p"⟩

/-- The number at a path below the rules. -/
def numberAt? (s : Settings) (id : String) (path : List String) : Option Json.Number :=
  match (s.rules.get? id).bind fun option => option.toValue.leafAt? path with
  | some (.number n) => some n
  | _ => none

end Settings

end TagLint

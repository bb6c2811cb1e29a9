import Mathlib
import TagLint.Proofs.SplitText
import TagLint.Proofs.TagOverrides

/-!
# Tag registries — which spec a tag name finds, and which key an error names

* `Converts tag value spec`, `Malformed tag value e`: what the value of a configuration key stands for
  (`readSpec_eq_ok_iff`, `readSpec_eq_error_iff`).
* `find?_ofOverrides_iff`, `ofOverrides_eq_error_iff`: of keys that differ in case only the greatest counts, of
  malformed values the one under the least key.
* `Disciplined`: every spec is stored under its name in small letters.  Builtin specs and overrides are, and merging
  keeps it (`disciplined_merge`, `disciplined_foldl_merge`).

**`registry_exact`** puts these together.
-/

namespace TagLint

namespace Text

/-! ## Small letters -/

theorem fold_of_forall_not_isUpper {s : String} (h : ∀ c ∈ s.toList, ¬ c.isUpper) : fold s = s := by
  have hmap : s.toList.map Char.toLower = s.toList :=
    (List.map_congr_left fun c hc => Char.toLower_eq_of_not_isUpper (h c hc)).trans (List.map_id' _)
  rw [fold, hmap, String.ofList_toList]

theorem fold_fold (s : String) : fold (fold s) = fold s := by
  refine fold_of_forall_not_isUpper fun c hc => ?_
  rw [toList_fold] at hc
  obtain ⟨d, -, rfl⟩ := List.mem_map.mp hc
  rw [Char.isUpper_toLower_eq_false]
  exact Bool.false_ne_true

end Text

/-! ## The first failure of a list -/

theorem mapM_eq_error_iff {α β ε : Type} {f : α → Except ε β} {xs : List α} {e : ε} :
    xs.mapM f = .error e ↔ ∃ as a bs, xs = as ++ a :: bs ∧ (∀ x ∈ as, ∃ y, f x = .ok y) ∧ f a = .error e := by
  induction xs with
  | nil => simp [pure, Except.pure]
  | cons x xs ih =>
    rw [List.mapM_cons]
    simp only [bind_eq_error_iff, ih]
    constructor
    · rintro (hx | ⟨y, hy, ⟨as, a, bs, rfl, has, ha⟩ | ⟨ys, -, h⟩⟩)
      · exact ⟨[], x, xs, rfl, by simp, hx⟩
      · exact ⟨x :: as, a, bs, rfl, List.forall_mem_cons.mpr ⟨⟨y, hy⟩, has⟩, ha⟩
      · cases h
    · rintro ⟨as, a, bs, heq, has, ha⟩
      cases as with
      | nil =>
        obtain ⟨rfl, rfl⟩ := List.cons.inj heq
        exact .inl ha
      | cons b as =>
        obtain ⟨rfl, rfl⟩ := List.cons.inj heq
        obtain ⟨⟨y, hy⟩, has⟩ := List.forall_mem_cons.mp has
        exact .inr ⟨y, hy, .inl ⟨as, a, bs, rfl, has, ha⟩⟩

/-! ## Requirements as written -/

namespace WrittenRequirement

variable {tag : String} {written : WrittenRequirement}

/-- No attribute name is written: nothing but bars, or an empty list. -/
def Nameless : WrittenRequirement → Prop
  | .joined text => ∀ c ∈ text.toList, c = '|'
  | .listed items => items = []

/-- What is wrong with a requirement without a name. -/
def problem : WrittenRequirement → RequirementProblem
  | .joined _ => .emptyName
  | .listed _ => .noName

/-- A requirement that has a name stands for one of a spec. -/
inductive Means : WrittenRequirement → Requirement → Prop
  | joined {text : String} (h : ¬ Nameless (.joined text)) : Means (.joined text) (.alternatives text)
  | listed (name : String) (allowed : List String) : Means (.listed (name :: allowed)) (.valued name allowed)

theorem alternatives_eq_iff {text : String} : Requirement.alternatives text = .oneOf [] ↔ Nameless (.joined text) := by
  rw [Requirement.alternatives, Requirement.oneOf.injEq, List.map_eq_nil_iff, Text.filter_splitAt_eq_nil_iff, Nameless]

theorem toRequirement_of_nameless (h : written.Nameless) :
    written.toRequirement tag = .error (.requirement tag written.problem) := by
  cases written with
  | joined text => rw [toRequirement, alternatives_eq_iff.mpr h]; rfl
  | listed items =>
    obtain rfl : items = [] := h
    rfl

theorem exists_means (h : ¬ written.Nameless) : ∃ r, written.Means r ∧ written.toRequirement tag = .ok r := by
  cases written with
  | joined text =>
    refine ⟨_, .joined h, ?_⟩
    rw [toRequirement]
    split
    · rename_i heq
      exact absurd (alternatives_eq_iff.mp heq) h
    · rfl
  | listed items =>
    cases items with
    | nil => exact absurd rfl h
    | cons name allowed => exact ⟨_, .listed name allowed, rfl⟩

theorem Means.not_nameless {r : Requirement} (h : written.Means r) : ¬ written.Nameless := by
  cases h with
  | joined h => exact h
  | listed name allowed => exact List.cons_ne_nil name allowed

theorem toRequirement_eq_ok_iff {r : Requirement} : written.toRequirement tag = .ok r ↔ written.Means r := by
  by_cases h : written.Nameless
  · rw [toRequirement_of_nameless h]
    exact ⟨nofun, fun hr => absurd h hr.not_nameless⟩
  · obtain ⟨s, hs, hok⟩ := @exists_means tag _ h
    rw [hok, Except.ok.injEq]
    constructor
    · rintro rfl
      exact hs
    · intro hr
      cases hs <;> cases hr <;> rfl

theorem toRequirement_eq_error_iff {e : RuleError} :
    written.toRequirement tag = .error e ↔ written.Nameless ∧ e = .requirement tag written.problem := by
  by_cases h : written.Nameless
  · rw [toRequirement_of_nameless h, Except.error.injEq, and_iff_right h, eq_comm]
  · obtain ⟨s, -, hok⟩ := @exists_means tag _ h
    simp [hok, h]

end WrittenRequirement

namespace TagSpecs

variable {tag : String} {value : Json} {e : RuleError}

/-! ## Specs as written -/

/-- The value under a key stands for a spec, with its requirements in the order in which they are written. -/
def Converts (tag : String) (value : Json) (spec : TagSpec) : Prop :=
  ∃ written, WrittenSpec.ofJson value = .ok written ∧
    spec.name = Text.fold tag ∧ spec.closing = .ofOption written.selfclosing ∧
    List.Forall₂ WrittenRequirement.Means written.required spec.required ∧
    List.Forall₂ WrittenRequirement.Means written.optional spec.optional ∧ spec.redundant = written.redundant

/-- The value under a key stands for no spec: it does not have the shape of one, or a requirement has no name, the
first one of which is what the error is about. -/
inductive Malformed (tag : String) (value : Json) : RuleError → Prop
  | shape {m : Json.Mismatch} (h : WrittenSpec.ofJson value = .error m) : Malformed tag value (.tagSpec tag m)
  | nameless {written : WrittenSpec} {good later : List WrittenRequirement} {bad : WrittenRequirement}
      (h : WrittenSpec.ofJson value = .ok written)
      (hfirst : written.required ++ written.optional = good ++ bad :: later)
      (hgood : ∀ r ∈ good, ¬ r.Nameless) (hbad : bad.Nameless) :
      Malformed tag value (.requirement tag bad.problem)

theorem toSpec_eq_ok_iff {written : WrittenSpec} {spec : TagSpec} : written.toSpec tag = .ok spec ↔
    spec.name = Text.fold tag ∧ spec.closing = .ofOption written.selfclosing ∧
      List.Forall₂ WrittenRequirement.Means written.required spec.required ∧
      List.Forall₂ WrittenRequirement.Means written.optional spec.optional ∧ spec.redundant = written.redundant := by
  simp only [WrittenSpec.toSpec, bind_eq_ok_iff, mapM_eq_ok_iff, WrittenRequirement.toRequirement_eq_ok_iff,
    pure_eq_ok_iff]
  obtain ⟨name, closing, required, optional, redundant⟩ := spec
  constructor
  · rintro ⟨_, hrequired, _, hoptional, heq⟩
    cases heq
    exact ⟨rfl, rfl, hrequired, hoptional, rfl⟩
  · rintro ⟨rfl, rfl, hrequired, hoptional, rfl⟩
    exact ⟨required, hrequired, optional, hoptional, rfl⟩

theorem toSpec_eq_error_iff {written : WrittenSpec} : written.toSpec tag = .error e ↔
    ∃ good bad later, written.required ++ written.optional = good ++ bad :: later ∧ (∀ r ∈ good, ¬ r.Nameless) ∧
      bad.Nameless ∧ e = .requirement tag bad.problem := by
  have hok (r : WrittenRequirement) : (∃ s, r.toRequirement tag = .ok s) ↔ ¬ r.Nameless := by
    constructor
    · rintro ⟨s, hs⟩
      exact (WrittenRequirement.toRequirement_eq_ok_iff.mp hs).not_nameless
    · intro h
      exact (WrittenRequirement.exists_means h).imp fun _ => And.right
  -- the required entries are read before the optional ones
  have hall : written.toSpec tag = .error e ↔
      (written.required ++ written.optional).mapM (·.toRequirement tag) = .error e := by
    simp [WrittenSpec.toSpec, bind_eq_error_iff, pure, Except.pure]
  rw [hall, mapM_eq_error_iff]
  simp only [hok, WrittenRequirement.toRequirement_eq_error_iff]

theorem readSpec_eq_ok_iff {spec : TagSpec} : readSpec tag value = .ok spec ↔ Converts tag value spec := by
  simp only [readSpec, bind_eq_ok_iff, mapError_eq_ok_iff, toSpec_eq_ok_iff, Converts]

theorem readSpec_eq_error_iff : readSpec tag value = .error e ↔ Malformed tag value e := by
  simp only [readSpec, bind_eq_error_iff, mapError_eq_error_iff, mapError_eq_ok_iff, toSpec_eq_error_iff]
  constructor
  · rintro (⟨m, hm, rfl⟩ | ⟨written, hwritten, good, bad, later, hfirst, hgood, hbad, rfl⟩)
    · exact .shape hm
    · exact .nameless hwritten hfirst hgood hbad
  · rintro (hm | ⟨hwritten, hfirst, hgood, hbad⟩)
    · exact .inl ⟨_, hm, rfl⟩
    · exact .inr ⟨_, hwritten, _, _, _, hfirst, hgood, hbad, rfl⟩

/-! ## The registry of an object -/

/-- The greatest key of an object that names a tag, up to the case of ASCII letters. -/
structure LastSpelling (o : SortedMap String Json) (name key : String) (value : Json) : Prop where
  get?_eq : o.get? key = some value
  names : Text.sameFolded key name
  greatest : ∀ k ∈ o.keys, Text.sameFolded k name → k ≤ key

/-- The least key of an object under which no spec stands, and what is wrong there. -/
structure LeastMalformed (o : SortedMap String Json) (key : String) (value : Json) (e : RuleError) : Prop where
  get?_eq : o.get? key = some value
  malformed : Malformed key value e
  least : ∀ k v e', o.get? k = some v → Malformed k v e' → key ≤ k

section

variable {o : SortedMap String Json} {user : TagSpecs} {name key : String} {spec : TagSpec}

theorem LastSpelling.exists_entries_eq (h : LastSpelling o name key value) :
    ∃ as bs, o.entries = as ++ (key, value) :: bs ∧ ∀ m ∈ bs, ¬ Text.sameFolded m.1 name := by
  obtain ⟨as, bs, hes⟩ := List.append_of_mem (SortedMap.get?_eq_some_iff.mp h.get?_eq)
  refine ⟨as, bs, hes, fun m hm hname => ?_⟩
  have hlt : key < m.1 := (SortedMap.lt_of_entries_eq hes).2 m hm
  have hmem : m ∈ o.entries := hes ▸ List.mem_append_right as (List.mem_cons_of_mem _ hm)
  exact absurd (h.greatest m.1 (List.mem_map_of_mem hmem) hname) (not_le_of_gt hlt)

theorem exists_lastSpelling (h : ∃ k ∈ o.keys, Text.sameFolded k name) :
    ∃ key value, LastSpelling o name key value := by
  have hentry : ∃ e ∈ o.entries, Text.sameFolded e.1 name := by
    obtain ⟨k, hk, hname⟩ := h
    obtain ⟨e, he, rfl⟩ := List.mem_map.mp hk
    exact ⟨e, he, hname⟩
  obtain ⟨as, ⟨key, value⟩, bs, hes, hname, hbs⟩ := exists_last hentry
  refine ⟨key, value, SortedMap.get?_eq_some_iff.mpr ?_, hname, fun k hk hk' => ?_⟩
  · rw [hes]
    exact List.mem_append_right as List.mem_cons_self
  · exact SortedMap.le_of_entries_eq (p := (Text.sameFolded · name)) hes hbs hk hk'

theorem LastSpelling.exists_converts (h : LastSpelling o name key value) (huser : ofOverrides o.entries = .ok user) :
    ∃ spec, Converts key value spec ∧ user.find? name = some spec := by
  obtain ⟨as, bs, hes, hbs⟩ := h.exists_entries_eq
  obtain ⟨spec, hread, hfind⟩ := find?_ofOverrides_last (hes ▸ huser) h.names hbs
  exact ⟨spec, readSpec_eq_ok_iff.mp hread, hfind⟩

theorem find?_ofOverrides_eq_none_iff (huser : ofOverrides o.entries = .ok user) :
    user.find? name = none ↔ ∀ key ∈ o.keys, ¬ Text.sameFolded key name := by
  constructor
  · intro hnone key hkey hname
    obtain ⟨k, v, hlast⟩ := exists_lastSpelling ⟨key, hkey, hname⟩
    obtain ⟨spec, -, hfind⟩ := hlast.exists_converts huser
    rw [hnone] at hfind
    cases hfind
  · exact fun h => find?_ofOverrides_none huser fun m hm => h m.1 (List.mem_map_of_mem hm)

theorem find?_ofOverrides_iff (huser : ofOverrides o.entries = .ok user) :
    user.find? name = some spec ↔ ∃ key value, LastSpelling o name key value ∧ Converts key value spec := by
  constructor
  · intro hfind
    have hsome : ∃ k ∈ o.keys, Text.sameFolded k name := by
      by_contra hnone
      have hnone := (find?_ofOverrides_eq_none_iff huser).mpr fun k hk hname => hnone ⟨k, hk, hname⟩
      rw [hnone] at hfind
      cases hfind
    obtain ⟨key, value, hlast⟩ := exists_lastSpelling hsome
    obtain ⟨other, hconverts, hother⟩ := hlast.exists_converts huser
    obtain rfl := Option.some.inj (hother.symm.trans hfind)
    exact ⟨key, value, hlast, hconverts⟩
  · rintro ⟨key, value, hlast, hconverts⟩
    obtain ⟨other, hother, hfind⟩ := hlast.exists_converts huser
    -- a value stands for one spec
    have hsame := (readSpec_eq_ok_iff.mpr hother).symm.trans (readSpec_eq_ok_iff.mpr hconverts)
    rw [hfind, Except.ok.inj hsame]

/-- Of malformed values the one under the least key is reported. -/
theorem ofOverrides_eq_error_iff :
    ofOverrides o.entries = .error e ↔ ∃ key value, LeastMalformed o key value e := by
  have hall : ofOverrides o.entries = .error e ↔ o.entries.mapM (fun m => readSpec m.1 m.2) = .error e := by
    simp [ofOverrides, bind_eq_error_iff, pure, Except.pure]
  rw [hall, mapM_eq_error_iff]
  constructor
  · rintro ⟨as, ⟨key, value⟩, bs, hes, has, hread⟩
    refine ⟨key, value, ?_, readSpec_eq_error_iff.mp hread, fun k v e' hget hbad => ?_⟩
    · rw [SortedMap.get?_eq_some_iff, hes]
      exact List.mem_append_right as List.mem_cons_self
    · rw [SortedMap.get?_eq_some_iff, hes] at hget
      rcases List.mem_append.mp hget with hmem | hmem
      · obtain ⟨spec, hspec⟩ := has _ hmem
        rw [readSpec_eq_error_iff.mpr hbad] at hspec
        cases hspec
      · rcases List.mem_cons.mp hmem with heq | hmem
        · exact (congrArg Prod.fst heq).ge
        · exact ((SortedMap.lt_of_entries_eq hes).2 _ hmem).le
  · rintro ⟨key, value, hget, hbad, hleast⟩
    obtain ⟨as, bs, hes⟩ := List.append_of_mem (SortedMap.get?_eq_some_iff.mp hget)
    refine ⟨as, (key, value), bs, hes, fun m hm => ?_, readSpec_eq_error_iff.mpr hbad⟩
    cases hread : readSpec m.1 m.2 with
    | ok spec => exact ⟨spec, rfl⟩
    | error e' =>
      have hmem : o.get? m.1 = some m.2 := SortedMap.get?_eq_some_iff.mpr (hes ▸ List.mem_append_left _ hm)
      have hle := hleast _ _ _ hmem (readSpec_eq_error_iff.mp hread)
      exact absurd ((SortedMap.lt_of_entries_eq hes).1 m hm) (not_lt_of_ge hle)

/-! ## Discipline -/

/-- Every spec is stored under its name, which is in small letters. -/
def Disciplined (specs : TagSpecs) : Prop := ∀ k spec, specs.get? k = some spec → spec.name = k ∧ Text.fold k = k

theorem mem_of_get?_ofSpecs {specs : List TagSpec} {k : String} (h : (ofSpecs specs).get? k = some spec) :
    spec ∈ specs ∧ spec.name = k := by
  rcases SortedMap.mem_or_of_get?_insertAll h with hmem | hempty
  · obtain ⟨s, hs, heq⟩ := List.mem_map.mp hmem
    obtain ⟨rfl, rfl⟩ := Prod.mk.inj heq
    exact ⟨hs, rfl⟩
  · cases hempty

theorem disciplined_builtin : Disciplined builtin := by
  intro k spec h
  have hsmall : ∀ s ∈ builtinSpecs, Text.fold s.name = s.name := by decide
  obtain ⟨hmem, rfl⟩ := mem_of_get?_ofSpecs h
  exact ⟨rfl, hsmall spec hmem⟩

theorem exists_key_of_get? (huser : ofOverrides o.entries = .ok user) {k : String} (h : user.get? k = some spec) :
    spec.name = k ∧ ∃ key ∈ o.keys, Text.fold key = k := by
  obtain ⟨specs, hspecs, rfl⟩ := ofOverrides_eq_ok_iff.mp huser
  obtain ⟨hmem, rfl⟩ := mem_of_get?_ofSpecs h
  obtain ⟨m, hm, -, hname⟩ := exists_member_of_mem hspecs hmem
  exact ⟨rfl, m.1, List.mem_map_of_mem hm, hname.symm⟩

theorem disciplined_ofOverrides (huser : ofOverrides o.entries = .ok user) : Disciplined user := by
  intro k spec h
  obtain ⟨hname, key, -, rfl⟩ := exists_key_of_get? huser h
  exact ⟨hname, Text.fold_fold key⟩

theorem mem_keys_ofOverrides_iff (huser : ofOverrides o.entries = .ok user) {k : String} :
    k ∈ user.keys ↔ ∃ key ∈ o.keys, Text.fold key = k := by
  rw [SortedMap.mem_keys_iff, SortedMap.contains, Option.isSome_iff_exists]
  constructor
  · rintro ⟨spec, h⟩
    exact (exists_key_of_get? huser h).2
  · rintro ⟨key, hkey, rfl⟩
    have hne : user.find? key ≠ none := fun hnone =>
      (find?_ofOverrides_eq_none_iff huser).mp hnone key hkey (beq_self_eq_true _)
    exact Option.ne_none_iff_exists'.mp hne

theorem disciplined_merge {base overrides : TagSpecs} (hbase : Disciplined base) (hoverrides : Disciplined overrides) :
    Disciplined (base.merge overrides) := by
  intro k spec h
  rw [merge, SortedMap.get?_override, Option.or_eq_some_iff] at h
  rcases h with h | ⟨-, h⟩
  · exact hoverrides k spec h
  · exact hbase k spec h

/-- Merging one registry after the other keeps the discipline. -/
theorem disciplined_foldl_merge {base : TagSpecs} {registries : List TagSpecs}
    (h : ∀ r ∈ base :: registries, Disciplined r) : Disciplined (registries.foldl merge base) := by
  induction registries generalizing base with
  | nil => exact h base List.mem_cons_self
  | cons r registries ih =>
    obtain ⟨hbase, hr, hrest⟩ := List.forall_mem_cons.mp h |>.imp_right List.forall_mem_cons.mp
    exact ih (List.forall_mem_cons.mpr ⟨disciplined_merge hbase hr, hrest⟩)

/-- The last registry that knows a tag answers. -/
theorem find?_foldl_merge (base : TagSpecs) (registries : List TagSpecs) (name : String) :
    (registries.foldl merge base).find? name = (base :: registries).reverse.findSome? (·.find? name) := by
  induction registries generalizing base with
  | nil => simp
  | cons r registries ih =>
    rw [List.foldl_cons, ih]
    simp only [List.reverse_cons, List.findSome?_append, List.findSome?_singleton, find?_merge, Option.or_assoc]

end

/-- **A registry holds what its object says.**  Its keys are the object's in small letters, every spec has its key for
its name, and a name finds the spec of the greatest key that spells it, whatever the case of its ASCII letters.  An
object that is refused is refused for its least malformed key.  Builtin registries and those of objects keep their
specs under small letters; so do they when merged in any sequence, and there the last one that knows a name answers. -/
theorem registry_exact :
    (∀ (o : SortedMap String Json) (user : TagSpecs), ofOverrides o.entries = .ok user →
      (∀ k, k ∈ user.keys ↔ ∃ key ∈ o.keys, Text.fold key = k) ∧
      (∀ k spec, user.get? k = some spec → spec.name = k) ∧
      ∀ name, (user.find? name = none ↔ ∀ key ∈ o.keys, ¬ Text.sameFolded key name) ∧
        ∀ spec, user.find? name = some spec ↔ ∃ key value, LastSpelling o name key value ∧ Converts key value spec) ∧
    (∀ (o : SortedMap String Json) (e : RuleError),
      ofOverrides o.entries = .error e ↔ ∃ key value, LeastMalformed o key value e) ∧
    (∀ (specs : TagSpecs) (name : String), (∀ c ∈ name.toList, ¬ c.isUpper) → specs.find? name = specs.get? name) ∧
    Disciplined builtin ∧
    (∀ (o : SortedMap String Json) (user : TagSpecs), ofOverrides o.entries = .ok user → Disciplined user) ∧
    ∀ (base : TagSpecs) (registries : List TagSpecs), (∀ r ∈ base :: registries, Disciplined r) →
      Disciplined (registries.foldl merge base) ∧
      ∀ name, (registries.foldl merge base).find? name = (base :: registries).reverse.findSome? (·.find? name) := by
  refine ⟨fun o user huser => ⟨fun k => mem_keys_ofOverrides_iff huser, fun k spec h => (exists_key_of_get? huser h).1,
    fun name => ⟨find?_ofOverrides_eq_none_iff huser, fun spec => find?_ofOverrides_iff huser⟩⟩,
    fun o e => ofOverrides_eq_error_iff, fun specs name h => ?_, disciplined_builtin,
    fun o user huser => disciplined_ofOverrides huser, fun base registries h =>
      ⟨disciplined_foldl_merge h, find?_foldl_merge base registries⟩⟩
  rw [find?, Text.fold_of_forall_not_isUpper h]

/-- Two spellings of one tag, the small one with two requirements, and a tag without ASCII letters. -/
def spelledTwice : SortedMap String Json :=
  .ofList [("isCache", .object [
      ("attrsRequired", .array [.array [.string "type", .string "daily"], .string "hour|minute"])]),
    ("ISCACHE", .object [("selfclosing", .bool true)]), ("É", .object [])]

theorem registry_exact_spelledTwice :
    ∃ user, ofOverrides spelledTwice.entries = .ok user ∧ user.keys = ["iscache", "É"] ∧
      (∃ spec key value, user.find? "IsCACHE" = some spec ∧ LastSpelling spelledTwice "IsCACHE" key value ∧
        Converts key value spec ∧ spec.required = [.valued "type" ["daily"], .oneOf ["hour", "minute"]]) ∧
      ((∀ c ∈ "É".toList, ¬ c.isUpper) ∧ user.find? "É" = user.get? "É") ∧
      (∀ r ∈ [builtin, user], Disciplined r) ∧ Disciplined ([user].foldl merge builtin) ∧
      ([user].foldl merge builtin).find? "iscache" = [user, builtin].findSome? (·.find? "iscache") := by
  have huser : ∃ user, ofOverrides spelledTwice.entries = .ok user ∧ user.keys = ["iscache", "É"] ∧
      (user.find? "IsCACHE").map (·.required) = some [.valued "type" ["daily"], .oneOf ["hour", "minute"]] :=
    ⟨_, rfl, by decide, by decide⟩
  have hsmall : ∀ c ∈ "É".toList, ¬ c.isUpper := List.forall_mem_singleton.mpr (by decide : ¬ 'É'.isUpper)
  obtain ⟨user, hok, hkeys, hrequired⟩ := huser
  obtain ⟨hregistry, -, hlookup, hbuiltin, hoverrides, hmerged⟩ := registry_exact
  obtain ⟨spec, hfind, hspec⟩ := Option.map_eq_some_iff.mp hrequired
  obtain ⟨key, value, hlast, hconverts⟩ := (((hregistry spelledTwice user hok).2.2 "IsCACHE").2 spec).mp hfind
  have hall : ∀ r ∈ [builtin, user], Disciplined r := List.forall_mem_cons.mpr
    ⟨hbuiltin, List.forall_mem_singleton.mpr (hoverrides spelledTwice user hok)⟩
  obtain ⟨hdisciplined, hanswer⟩ := hmerged builtin [user] hall
  exact ⟨user, hok, hkeys, ⟨spec, key, value, hfind, hlast, hconverts, hspec⟩, ⟨hsmall, hlookup user "É" hsmall⟩, hall,
    hdisciplined, hanswer "iscache"⟩

end TagSpecs

end TagLint

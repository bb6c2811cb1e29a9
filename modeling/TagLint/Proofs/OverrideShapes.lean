import TagLint.Proofs.EventSpellings
import TagLint.Proofs.TagRegistry

/-!
# Override shapes — the values that are accepted as the override of a tag

* `WrittenAsObject v`: an object whose fields, where they are given, have their types, and whose requirements have names.
* `WrittenAsList v`: a list of such fields in order, from the first up to any of them.
* `exists_readSpec_iff`: a value stands for a spec if and only if it is one of these.

**`overrides_accepted_iff`**: an object of overrides is accepted if and only if all its values are, and what is reported
otherwise names a tag whose value is not.  The list form is accepted without being documented
(`empty_list_overrides_image`).
-/

namespace TagLint

open Json Event

variable {α : Type} {names : List String} {ms : List (String × Json)} {v : Json}

/-! ## Fields -/

/-- A value is a list whose items have a shape. -/
def IsListOf (shape : Json → Prop) (v : Json) : Prop := ∃ items, v = .array items ∧ ∀ item ∈ items, shape item

/-- A value is a text. -/
def IsText (v : Json) : Prop := ∃ s, v = .string s

/-- A field is given once at most, and then by a value of its shape. -/
def FieldFits (names : List String) (shape : Json → Prop) (ms : List (String × Json)) : Prop :=
  (valuesOf names ms).length ≤ 1 ∧ ∀ v ∈ valuesOf names ms, shape v

/-- The items of a list have the shapes of the fields in order; the last fields may be left out. -/
def ItemsFit : List (Json → Prop) → List Json → Prop
  | _, [] => True
  | [], _ :: _ => False
  | shape :: shapes, item :: items => shape item ∧ ItemsFit shapes items

theorem exists_forall₂_iff {β γ : Type} {R : β → γ → Prop} {P : γ → Prop} {bs : List β} :
    (∃ cs, List.Forall₂ R bs cs ∧ ∀ c ∈ cs, P c) ↔ ∀ b ∈ bs, ∃ c, R b c ∧ P c := by
  induction bs with
  | nil => simp
  | cons b bs ih =>
    rw [List.forall_mem_cons, ← ih]
    constructor
    · rintro ⟨_, h, hall⟩
      cases h with
      | cons hb hbs =>
        obtain ⟨hc, hcs⟩ := List.forall_mem_cons.mp hall
        exact ⟨⟨_, hb, hc⟩, _, hbs, hcs⟩
    · rintro ⟨⟨c, hb, hc⟩, cs, hbs, hcs⟩
      exact ⟨c :: cs, .cons hb hbs, List.forall_mem_cons.mpr ⟨hc, hcs⟩⟩

section

variable {read : Json → Except Mismatch α} {P : α → Prop} {shape : Json → Prop}

theorem exists_asListOf_iff (h : ∀ v, (∃ a, read v = .ok a ∧ P a) ↔ shape v) :
    (∃ as, asListOf read v = .ok as ∧ ∀ a ∈ as, P a) ↔ IsListOf shape v := by
  simp only [asListOf_eq_ok_iff, IsListOf, ← h, ← exists_forall₂_iff]
  constructor
  · rintro ⟨as, ⟨items, rfl, hitems⟩, hall⟩
    exact ⟨items, rfl, as, hitems, hall⟩
  · rintro ⟨items, rfl, as, hitems, hall⟩
    exact ⟨as, ⟨items, rfl, hitems⟩, hall⟩

theorem exists_fills_iff (h : ∀ v, (∃ a, read v = .ok a ∧ P a) ↔ shape v) {d : α} (hd : P d) :
    (∃ slot, Fills names read none ms slot ∧ P (slot.getD d)) ↔ FieldFits names shape ms := by
  unfold Fills FieldFits
  match valuesOf names ms with
  | [] => simp [hd]
  | [v] => simp [← h]
  | _ :: _ :: _ => simp

theorem itemsFit_nil_iff {items : List Json} : ItemsFit [] items ↔ items = [] := by
  cases items <;> simp [ItemsFit]

theorem itemsFit_cons_iff (h : ∀ v, (∃ a, read v = .ok a ∧ P a) ↔ shape v) {d : α} (hd : P d)
    {shapes : List (Json → Prop)} {items : List Json} : ItemsFit (shape :: shapes) items ↔
      ∃ a rest, nextFieldOr d read items = .ok (a, rest) ∧ P a ∧ ItemsFit shapes rest := by
  cases items with
  | nil => simp [nextFieldOr, ItemsFit, hd]
  | cons v items =>
    simp only [ItemsFit, ← h, nextFieldOr_eq_ok_iff]
    constructor
    · rintro ⟨⟨a, hread, ha⟩, hrest⟩
      exact ⟨a, items, ⟨hread, rfl⟩, ha, hrest⟩
    · rintro ⟨a, _, ⟨hread, rfl⟩, ha, hrest⟩
      exact ⟨⟨a, hread, ha⟩, hrest⟩

end

theorem exists_asString_iff (v : Json) : (∃ s, asString v = .ok s ∧ True) ↔ IsText v := by
  simp [asString_eq_ok_iff, IsText]

theorem asListOf_asString_eq_ok_iff {texts : List String} :
    asListOf asString v = .ok texts ↔ v = .array (texts.map .string) := by
  have htexts (items : List Json) :
      List.Forall₂ (fun item text => item = .string text) items texts ↔ items = texts.map .string := by
    rw [← List.forall₂_eq_eq_eq, List.forall₂_map_right_iff]
  simp only [asListOf_eq_ok_iff, asString_eq_ok_iff, htexts, exists_eq_right]

/-! ## Requirements -/

namespace WrittenRequirement

/-- A value stands for a requirement: a text with a name between its bars, or a list of texts that is not empty. -/
inductive Shape : Json → Prop
  | names {text : String} (h : ∃ piece ∈ Text.splitAt '|' text.toList, piece ≠ []) : Shape (.string text)
  | values {items : List Json} (hne : items ≠ []) (h : ∀ item ∈ items, IsText item) : Shape (.array items)

theorem not_nameless_joined_iff {text : String} :
    ¬ Nameless (.joined text) ↔ ∃ piece ∈ Text.splitAt '|' text.toList, piece ≠ [] := by
  rw [Nameless, ← Text.filter_splitAt_eq_nil_iff, List.filter_eq_nil_iff]
  simp

theorem ofJson_eq_ok_iff {written : WrittenRequirement} : ofJson v = .ok written ↔
    (∃ text, v = .string text ∧ written = .joined text) ∨
      ∃ texts, v = .array (texts.map .string) ∧ written = .listed texts := by
  simp only [← asString_eq_ok_iff, ← asListOf_asString_eq_ok_iff]
  have hlist (text : String) : asListOf asString (.string text) = .error (.type (.string text) "a sequence") := rfl
  unfold ofJson
  cases v with
  | string text => simp [asString, hlist, eq_comm]
  | _ => cases h : asListOf asString _ <;> simp [asString, eq_comm]

theorem exists_ofJson_iff (v : Json) : (∃ written, ofJson v = .ok written ∧ ¬ written.Nameless) ↔ Shape v := by
  simp only [ofJson_eq_ok_iff]
  constructor
  · rintro ⟨_, ⟨text, rfl, rfl⟩ | ⟨texts, rfl, rfl⟩, hname⟩
    · exact .names (not_nameless_joined_iff.mp hname)
    · exact .values (fun hnil => hname (List.map_eq_nil_iff.mp hnil)) (by simp [IsText])
  · rintro (⟨h⟩ | ⟨hne, h⟩)
    · exact ⟨_, .inl ⟨_, rfl, rfl⟩, not_nameless_joined_iff.mpr h⟩
    · obtain ⟨texts, htexts, -⟩ := (exists_asListOf_iff exists_asString_iff).mpr ⟨_, rfl, h⟩
      obtain rfl := Json.array.inj (asListOf_asString_eq_ok_iff.mp htexts)
      exact ⟨_, .inr ⟨texts, rfl, rfl⟩, fun hnil => hne (List.map_eq_nil_iff.mpr hnil)⟩

end WrittenRequirement

/-! ## Specs -/

namespace WrittenSpec

/-- A value says how a tag ends, or leaves it open. -/
def IsClosing (v : Json) : Prop := v = .null ∨ ∃ b, v = .bool b

/-- The fields of an object have the shapes of those of a spec.  What other members there are does not matter. -/
structure FieldsFit (ms : List (String × Json)) : Prop where
  selfclosing : FieldFits ["selfclosing"] IsClosing ms
  required : FieldFits ["attrsRequired", "attrsrequired", "attrs_required"] (IsListOf WrittenRequirement.Shape) ms
  optional : FieldFits ["attrsOptional", "attrsoptional", "attrs_optional"] (IsListOf WrittenRequirement.Shape) ms
  redundant : FieldFits ["redundantAttrs", "redundantattrs", "redundant_attrs"] (IsListOf IsText) ms

/-- The shapes of the fields of a spec, in order. -/
def shapes : List (Json → Prop) :=
  [IsClosing, IsListOf WrittenRequirement.Shape, IsListOf WrittenRequirement.Shape, IsListOf IsText]

theorem Fields.read_eq_ok_iff (f : Fields) (m : String × Json) (f' : Fields) : f.read m = .ok f' ↔
    Takes ["selfclosing"] (asOptional asBool) f.selfclosing m f'.selfclosing ∧
      Takes ["attrsRequired", "attrsrequired", "attrs_required"] asRequirements f.required m f'.required ∧
      Takes ["attrsOptional", "attrsoptional", "attrs_optional"] asRequirements f.optional m f'.optional ∧
      Takes ["redundantAttrs", "redundantattrs", "redundant_attrs"] (asListOf asString) f.redundant m f'.redundant := by
  obtain ⟨name, v⟩ := m
  cases f
  cases f'
  unfold Fields.read
  split_ifs <;> simp_all [Event.Takes, pure_eq_ok_iff, map_fill_eq_ok_iff] <;> grind

theorem Fields.foldlM_eq_ok_iff {f f' : Fields} : ms.foldlM Fields.read f = .ok f' ↔
    Fills ["selfclosing"] (asOptional asBool) f.selfclosing ms f'.selfclosing ∧
      Fills ["attrsRequired", "attrsrequired", "attrs_required"] asRequirements f.required ms f'.required ∧
      Fills ["attrsOptional", "attrsoptional", "attrs_optional"] asRequirements f.optional ms f'.optional ∧
      Fills ["redundantAttrs", "redundantattrs", "redundant_attrs"] (asListOf asString) f.redundant ms f'.redundant := by
  induction ms generalizing f with
  | nil => cases f; cases f'; simp [pure_eq_ok_iff, fills_nil]
  | cons m ms ih =>
    simp only [List.foldlM_cons, bind_eq_ok_iff, read_eq_ok_iff, ih, fills_cons]
    constructor
    · rintro ⟨_, ⟨closing, required, optional, redundant⟩, closing', required', optional', redundant'⟩
      exact ⟨⟨_, closing, closing'⟩, ⟨_, required, required'⟩, ⟨_, optional, optional'⟩, _, redundant, redundant'⟩
    · rintro ⟨⟨_, closing, closing'⟩, ⟨_, required, required'⟩, ⟨_, optional, optional'⟩, _, redundant, redundant'⟩
      exact ⟨⟨_, _, _, _⟩, ⟨closing, required, optional, redundant⟩, closing', required', optional', redundant'⟩

/-- All requirements of a spec have names. -/
def Named (written : WrittenSpec) : Prop :=
  (∀ r ∈ written.required, ¬ r.Nameless) ∧ ∀ r ∈ written.optional, ¬ r.Nameless

theorem exists_closing_iff (v : Json) : (∃ closing, asOptional asBool v = .ok closing ∧ True) ↔ IsClosing v := by
  cases v <;> simp [asOptional, IsClosing, asBool, Except.map]

theorem exists_requirements_iff (v : Json) :
    (∃ written, asRequirements v = .ok written ∧ ∀ r ∈ written, ¬ r.Nameless) ↔ IsListOf WrittenRequirement.Shape v :=
  exists_asListOf_iff WrittenRequirement.exists_ofJson_iff

theorem exists_texts_iff (v : Json) : (∃ texts, asListOf asString v = .ok texts ∧ True) ↔ IsListOf IsText v := by
  simp [← exists_asListOf_iff exists_asString_iff]

theorem exists_object_iff : (∃ written, ofJson (.object ms) = .ok written ∧ written.Named) ↔ FieldsFit ms := by
  simp only [ofJson, bind_eq_ok_iff, Fields.foldlM_eq_ok_iff, pure_eq_ok_iff]
  have hnil : ∀ r ∈ ([] : List WrittenRequirement), ¬ r.Nameless := List.forall_mem_nil _
  constructor
  · rintro ⟨_, ⟨f, ⟨hclosing, hrequired, hoptional, hredundant⟩, rfl⟩, hnames, hnames'⟩
    exact ⟨(exists_fills_iff exists_closing_iff (d := none) trivial).mp ⟨_, hclosing, trivial⟩,
      (exists_fills_iff exists_requirements_iff hnil).mp ⟨_, hrequired, hnames⟩,
      (exists_fills_iff exists_requirements_iff hnil).mp ⟨_, hoptional, hnames'⟩,
      (exists_fills_iff exists_texts_iff (d := []) trivial).mp ⟨_, hredundant, trivial⟩⟩
  · rintro ⟨hclosing, hrequired, hoptional, hredundant⟩
    obtain ⟨closing, hclosing, -⟩ := (exists_fills_iff exists_closing_iff (d := none) trivial).mpr hclosing
    obtain ⟨required, hrequired, hnames⟩ := (exists_fills_iff exists_requirements_iff hnil).mpr hrequired
    obtain ⟨optional, hoptional, hnames'⟩ := (exists_fills_iff exists_requirements_iff hnil).mpr hoptional
    obtain ⟨redundant, hredundant, -⟩ := (exists_fills_iff exists_texts_iff (d := []) trivial).mpr hredundant
    exact ⟨_, ⟨⟨closing, required, optional, redundant⟩, ⟨hclosing, hrequired, hoptional, hredundant⟩, rfl⟩, hnames,
      hnames'⟩

theorem exists_array_iff {items : List Json} :
    (∃ written, ofJson (.array items) = .ok written ∧ written.Named) ↔ ItemsFit shapes items := by
  have hnil : ∀ r ∈ ([] : List WrittenRequirement), ¬ r.Nameless := List.forall_mem_nil _
  rw [shapes, itemsFit_cons_iff exists_closing_iff (d := none) trivial]
  simp only [itemsFit_cons_iff exists_requirements_iff hnil, itemsFit_cons_iff exists_texts_iff (d := []) trivial,
    itemsFit_nil_iff, ofJson, ofItems, bind_eq_ok_iff, Prod.exists]
  constructor
  · rintro ⟨_, ⟨closing, _, hclosing, required, _, hrequired, optional, _, hoptional, redundant, rest, hredundant, h⟩,
      hnames, hnames'⟩
    split_ifs at h with hrest
    cases h
    exact ⟨closing, _, hclosing, trivial, required, _, hrequired, hnames, optional, _, hoptional, hnames', redundant, _,
      hredundant, trivial, List.isEmpty_iff.mp hrest⟩
  · rintro ⟨closing, _, hclosing, -, required, _, hrequired, hnames, optional, _, hoptional, hnames', redundant, _,
      hredundant, -, rfl⟩
    exact ⟨⟨closing, required, optional, redundant⟩, ⟨closing, _, hclosing, required, _, hrequired, optional, _,
      hoptional, redundant, _, hredundant, rfl⟩, hnames, hnames'⟩

end WrittenSpec

/-- An override in the documented form: an object whose fields fit. -/
def WrittenAsObject (v : Json) : Prop := ∃ ms, v = .object ms ∧ WrittenSpec.FieldsFit ms

/-- An override as the list of its fields. -/
def WrittenAsList (v : Json) : Prop := ∃ items, v = .array items ∧ ItemsFit WrittenSpec.shapes items

theorem WrittenSpec.exists_ofJson_iff :
    (∃ written, ofJson v = .ok written ∧ written.Named) ↔ WrittenAsObject v ∨ WrittenAsList v := by
  cases v with
  | object ms => simp [exists_object_iff, WrittenAsObject, WrittenAsList]
  | array items => simp [exists_array_iff, WrittenAsObject, WrittenAsList]
  | _ => simp [ofJson, WrittenAsObject, WrittenAsList]

/-! ## Registries -/

namespace TagSpecs

variable {tag : String} {o : SortedMap String Json}

theorem exists_forall₂_means_iff {requirements : List WrittenRequirement} :
    (∃ rs, List.Forall₂ WrittenRequirement.Means requirements rs) ↔ ∀ r ∈ requirements, ¬ r.Nameless := by
  have hmeans (r : WrittenRequirement) : (∃ s, r.Means s) ↔ ¬ r.Nameless :=
    ⟨fun ⟨_, h⟩ => h.not_nameless, fun h => (@WrittenRequirement.exists_means "" _ h).imp fun _ => And.left⟩
  have hall := @exists_forall₂_iff _ _ WrittenRequirement.Means (fun _ => True) requirements
  simpa [hmeans] using hall

/-- A value stands for a spec if it is an override in one of the two forms. -/
theorem exists_readSpec_iff : (∃ spec, readSpec tag v = .ok spec) ↔ WrittenAsObject v ∨ WrittenAsList v := by
  simp only [readSpec_eq_ok_iff, ← WrittenSpec.exists_ofJson_iff, WrittenSpec.Named, ← exists_forall₂_means_iff]
  constructor
  · rintro ⟨spec, written, hread, -, -, hrequired, hoptional, -⟩
    exact ⟨written, hread, ⟨_, hrequired⟩, _, hoptional⟩
  · rintro ⟨written, hread, ⟨required, hrequired⟩, optional, hoptional⟩
    exact ⟨⟨_, _, required, optional, _⟩, written, hread, rfl, rfl, hrequired, hoptional, rfl⟩

theorem exists_ofOverrides_iff : (∃ user, ofOverrides o.entries = .ok user) ↔
    ∀ tag value, o.get? tag = some value → WrittenAsObject value ∨ WrittenAsList value := by
  have hreads : (∃ specs, Reads o.entries specs) ↔ ∀ m ∈ o.entries, ∃ spec, readSpec m.1 m.2 = .ok spec := by
    have hall := @exists_forall₂_iff _ _ (fun m spec => readSpec m.1 m.2 = .ok spec) (fun _ => True) o.entries
    simpa using hall
  simp only [ofOverrides_eq_ok_iff, exists_comm (α := TagSpecs), exists_and_left, exists_eq, and_true, hreads,
    exists_readSpec_iff, SortedMap.get?_eq_some_iff, Prod.forall]

theorem Malformed.not_written {e : RuleError} (h : Malformed tag v e) : ¬ WrittenAsObject v ∧ ¬ WrittenAsList v := by
  rw [← not_or, ← @exists_readSpec_iff _ tag]
  rintro ⟨spec, hspec⟩
  rw [readSpec_eq_error_iff.mpr h] at hspec
  cases hspec

/-- **Which overrides are accepted.**  An object of overrides becomes a registry if and only if every value in it is an
override, as an object or as a list.  Otherwise there is an error, which names a tag whose value is neither. -/
theorem overrides_accepted_iff (o : SortedMap String Json) :
    ((∃ user, ofOverrides o.entries = .ok user) ↔
      ∀ tag value, o.get? tag = some value → WrittenAsObject value ∨ WrittenAsList value) ∧
    ((∃ e, ofOverrides o.entries = .error e) ↔
      ∃ tag value, o.get? tag = some value ∧ ¬ WrittenAsObject value ∧ ¬ WrittenAsList value) ∧
    ∀ e, ofOverrides o.entries = .error e → ∃ tag value, o.get? tag = some value ∧
      ¬ WrittenAsObject value ∧ ¬ WrittenAsList value ∧
      ((∃ m, e = .tagSpec tag m) ∨ ∃ problem, e = .requirement tag problem) := by
  have hnamed (e : RuleError) (h : ofOverrides o.entries = .error e) : ∃ tag value, o.get? tag = some value ∧
      ¬ WrittenAsObject value ∧ ¬ WrittenAsList value ∧
      ((∃ m, e = .tagSpec tag m) ∨ ∃ problem, e = .requirement tag problem) := by
    obtain ⟨tag, value, hget, hbad, -⟩ := ofOverrides_eq_error_iff.mp h
    obtain ⟨hobject, hlist⟩ := hbad.not_written
    refine ⟨tag, value, hget, hobject, hlist, ?_⟩
    cases hbad with
    | shape => exact .inl ⟨_, rfl⟩
    | nameless => exact .inr ⟨_, rfl⟩
  refine ⟨exists_ofOverrides_iff, ⟨?_, ?_⟩, hnamed⟩
  · rintro ⟨e, h⟩
    obtain ⟨tag, value, hget, hobject, hlist, -⟩ := hnamed e h
    exact ⟨tag, value, hget, hobject, hlist⟩
  · rintro ⟨tag, value, hget, hobject, hlist⟩
    cases h : ofOverrides o.entries with
    | error e => exact ⟨e, rfl⟩
    | ok user => exact absurd (exists_ofOverrides_iff.mp ⟨user, h⟩ tag value hget) (not_or.mpr ⟨hobject, hlist⟩)

/-- An empty list where an override is expected. -/
def emptyList : SortedMap String Json := .ofList [("img", .array [])]

/-- An empty list is accepted and takes the place of the builtin spec: an image needs no attribute any more. -/
theorem empty_list_overrides_image :
    emptyList.get? "img" = some (.array []) ∧ ¬ WrittenAsObject (.array []) ∧
    ∃ user, ofOverrides emptyList.entries = .ok user ∧
      TagsCheck.check builtin (.openTag (.new "img" 1 1)) ≠ [] ∧
      TagsCheck.check (builtin.merge user) (.openTag (.new "img" 1 1)) = [] := by
  refine ⟨rfl, ?_, _, rfl, by decide, by decide⟩
  rintro ⟨ms, h, -⟩
  cases h

end TagSpecs

end TagLint

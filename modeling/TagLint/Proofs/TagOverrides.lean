import Mathlib.Data.List.Forall2
import Mathlib.Data.String.Basic
import TagLint.Proofs.MapLookup
import TagLint.Rule.TagsCheck

/-!
# Tag overrides — what a configuration object changes about the tag rule

`ofOverrides_eq_ok_iff` opens the registry of an object member by member, and `find?_ofOverrides_last` says which
member a tag name finds.  For the rule this means that an override acts on the tags it names as if it were the only
spec there is (`check_merge_last`), and on no other tag (`check_merge_of_forall_not`).
-/

namespace TagLint

/-! ## Results, lists and sorted maps -/

theorem bind_eq_ok_iff {α β ε : Type} {x : Except ε α} {f : α → Except ε β} {b : β} :
    x >>= f = .ok b ↔ ∃ a, x = .ok a ∧ f a = .ok b := by
  cases x with
  | error e => simp [bind, Except.bind]
  | ok a => simp [bind, Except.bind]

theorem bind_eq_error_iff {α β ε : Type} {x : Except ε α} {f : α → Except ε β} {e : ε} :
    x >>= f = .error e ↔ x = .error e ∨ ∃ a, x = .ok a ∧ f a = .error e := by
  cases x <;> simp [bind, Except.bind]

theorem pure_eq_ok_iff {α ε : Type} {a b : α} : (pure a : Except ε α) = .ok b ↔ a = b := by
  simp [pure, Except.pure]

theorem map_eq_ok_iff {α β ε : Type} {x : Except ε α} {f : α → β} {b : β} :
    x.map f = .ok b ↔ ∃ a, x = .ok a ∧ f a = b := by
  cases x <;> simp [Except.map]

theorem mapError_eq_ok_iff {α ε ε' : Type} {f : ε → ε'} {x : Except ε α} {a : α} :
    x.mapError f = .ok a ↔ x = .ok a := by
  cases x <;> simp [Except.mapError]

theorem mapError_eq_error_iff {α ε ε' : Type} {f : ε → ε'} {x : Except ε α} {e' : ε'} :
    x.mapError f = .error e' ↔ ∃ e, x = .error e ∧ f e = e' := by
  cases x <;> simp [Except.mapError]

theorem mapM_eq_ok_iff {α β ε : Type} {f : α → Except ε β} {xs : List α} {ys : List β} :
    xs.mapM f = .ok ys ↔ List.Forall₂ (fun x y => f x = .ok y) xs ys := by
  induction xs generalizing ys with
  | nil =>
    rw [List.forall₂_nil_left_iff, List.mapM_nil]
    exact ⟨fun h => (Except.ok.inj h).symm, fun h => h ▸ rfl⟩
  | cons x xs ih =>
    rw [List.forall₂_cons_left_iff, List.mapM_cons]
    simp only [bind_eq_ok_iff, ih]
    constructor
    · rintro ⟨y, hy, zs, hzs, h⟩
      exact ⟨y, zs, hy, hzs, (Except.ok.inj h).symm⟩
    · rintro ⟨y, zs, hy, hzs, rfl⟩
      exact ⟨y, hy, zs, hzs, rfl⟩

/-- The last member with a property. -/
theorem exists_last {α : Type} {p : α → Prop} {l : List α} (h : ∃ a ∈ l, p a) :
    ∃ as a bs, l = as ++ a :: bs ∧ p a ∧ ∀ b ∈ bs, ¬ p b := by
  induction l with
  | nil => simp at h
  | cons a l ih =>
    by_cases hl : ∃ b ∈ l, p b
    · obtain ⟨as, b, bs, rfl, hb, hbs⟩ := ih hl
      exact ⟨a :: as, b, bs, rfl, hb, hbs⟩
    · have ha : p a := by
        obtain ⟨b, hb, hpb⟩ := h
        rcases List.mem_cons.mp hb with rfl | hb
        · exact hpb
        · exact absurd ⟨b, hb, hpb⟩ hl
      exact ⟨[], a, l, rfl, ha, fun b hb hpb => hl ⟨b, hb, hpb⟩⟩

/-- The entries before an entry of a map have smaller keys, those behind it greater ones. -/
theorem SortedMap.lt_of_entries_eq {α : Type} {m : SortedMap String α} {as bs : List (String × α)} {e : String × α}
    (hm : m.entries = as ++ e :: bs) : (∀ a ∈ as, a.1 < e.1) ∧ ∀ b ∈ bs, e.1 < b.1 := by
  have hord := m.ordered
  rw [hm] at hord
  obtain ⟨-, hcons, hcross⟩ := List.pairwise_append.mp hord
  exact ⟨fun a ha => compareOfLessAndEq_eq_lt.mp (hcross a ha e List.mem_cons_self),
    fun b hb => compareOfLessAndEq_eq_lt.mp ((List.pairwise_cons.mp hcons).1 b hb)⟩

/-- In a map, an entry after which no key has a property is the one with the greatest such key. -/
theorem SortedMap.le_of_entries_eq {α : Type} {m : SortedMap String α} {as bs : List (String × α)} {e : String × α}
    (hm : m.entries = as ++ e :: bs) {p : String → Prop} (hbs : ∀ b ∈ bs, ¬ p b.1) {k : String} (hk : k ∈ m.keys)
    (hp : p k) : k ≤ e.1 := by
  obtain ⟨a, ha, rfl⟩ := List.mem_map.mp hk
  rw [hm] at ha
  rcases List.mem_append.mp ha with ha | ha
  · exact le_of_lt ((lt_of_entries_eq hm).1 a ha)
  · rcases List.mem_cons.mp ha with rfl | ha
    · exact le_refl _
    · exact absurd hp (hbs a ha)

namespace TagSpecs

/-! ## The registry of an object -/

theorem name_of_readSpec {tag : String} {value : Json} {spec : TagSpec} (h : readSpec tag value = .ok spec) :
    spec.name = Text.fold tag := by
  unfold readSpec at h
  obtain ⟨written, -, h⟩ := bind_eq_ok_iff.mp h
  unfold WrittenSpec.toSpec at h
  obtain ⟨required, -, h⟩ := bind_eq_ok_iff.mp h
  obtain ⟨optional, -, h⟩ := bind_eq_ok_iff.mp h
  rw [← Except.ok.inj h]

/-- The specs that the members of an object stand for, one for each. -/
abbrev Reads (members : List (String × Json)) (specs : List TagSpec) : Prop :=
  List.Forall₂ (fun m spec => readSpec m.1 m.2 = .ok spec) members specs

theorem ofOverrides_eq_ok_iff {members : List (String × Json)} {user : TagSpecs} :
    ofOverrides members = .ok user ↔ ∃ specs, Reads members specs ∧ user = ofSpecs specs := by
  unfold ofOverrides
  simp only [bind_eq_ok_iff, mapM_eq_ok_iff]
  exact exists_congr fun specs => and_congr_right fun _ => ⟨fun h => (Except.ok.inj h).symm, fun h => h ▸ rfl⟩

theorem ofOverrides_singleton {k : String} {v : Json} {spec : TagSpec} (h : readSpec k v = .ok spec) :
    ofOverrides [(k, v)] = .ok (ofSpecs [spec]) :=
  ofOverrides_eq_ok_iff.mpr ⟨[spec], .cons h .nil, rfl⟩

/-- Every spec is that of a member and has its name in small letters. -/
theorem exists_member_of_mem {members : List (String × Json)} {specs : List TagSpec} (h : Reads members specs)
    {spec : TagSpec} (hs : spec ∈ specs) :
    ∃ m ∈ members, readSpec m.1 m.2 = .ok spec ∧ spec.name = Text.fold m.1 := by
  induction h with
  | nil => simp at hs
  | cons hm _ ih =>
    rcases List.mem_cons.mp hs with rfl | hs
    · exact ⟨_, List.mem_cons_self, hm, name_of_readSpec hm⟩
    · obtain ⟨m, hmem, hread, hname⟩ := ih hs
      exact ⟨m, List.mem_cons_of_mem _ hmem, hread, hname⟩

theorem ne_fold_of_mem {members : List (String × Json)} {specs : List TagSpec} {name : String}
    (h : Reads members specs) (hno : ∀ m ∈ members, ¬ Text.sameFolded m.1 name) :
    ∀ e ∈ specs.map fun s => (s.name, s), e.1 ≠ Text.fold name := by
  intro e he heq
  obtain ⟨spec, hs, rfl⟩ := List.mem_map.mp he
  obtain ⟨m, hm, -, hname⟩ := exists_member_of_mem h hs
  refine hno m hm ?_
  rw [Text.sameFolded, beq_iff_eq, ← hname]
  exact heq

theorem find?_ofOverrides_none {members : List (String × Json)} {user : TagSpecs} {name : String}
    (h : ofOverrides members = .ok user) (hno : ∀ m ∈ members, ¬ Text.sameFolded m.1 name) :
    user.find? name = none := by
  obtain ⟨specs, hspecs, rfl⟩ := ofOverrides_eq_ok_iff.mp h
  exact SortedMap.get?_insertAll_of_not_mem (ne_fold_of_mem hspecs hno)

/-- Of the members that name a tag, the last one is its spec. -/
theorem find?_ofOverrides_last {as bs : List (String × Json)} {k name : String} {v : Json} {user : TagSpecs}
    (h : ofOverrides (as ++ (k, v) :: bs) = .ok user) (hk : Text.sameFolded k name)
    (hbs : ∀ m ∈ bs, ¬ Text.sameFolded m.1 name) : ∃ spec, readSpec k v = .ok spec ∧ user.find? name = some spec := by
  obtain ⟨specs, hspecs, rfl⟩ := ofOverrides_eq_ok_iff.mp h
  obtain ⟨spec, after, hread, hafter, hdrop⟩ :=
    List.forall₂_cons_right_iff.mp (List.forall₂_drop_append _ _ _ hspecs.flip)
  refine ⟨spec, hread, ?_⟩
  have hname : spec.name = Text.fold name := by
    rw [name_of_readSpec hread]
    exact beq_iff_eq.mp hk
  rw [find?, ofSpecs, SortedMap.ofList, ← List.take_append_drop as.length specs, hdrop, List.map_append, List.map_cons,
    ← hname]
  exact SortedMap.get?_insertAll_last _ _ _ (hname ▸ ne_fold_of_mem hafter.flip hbs)

theorem find?_ofSpecs_singleton {spec : TagSpec} {name : String} (h : spec.name = Text.fold name) :
    (ofSpecs [spec]).find? name = some spec := by
  rw [find?, ← h]
  exact SortedMap.get?_insert_self ..

theorem find?_merge (base overrides : TagSpecs) (name : String) :
    (merge base overrides).find? name = (overrides.find? name).or (base.find? name) := SortedMap.get?_override ..

end TagSpecs

namespace TagsCheck

/-! ## Overrides and the rule -/

/-- An event is the opening of a tag with this name, up to the case of ASCII letters. -/
def Names (name : String) : Event → Prop
  | .openTag tag => Text.sameFolded name tag.name
  | _ => False

instance (name : String) : DecidablePred (Names name)
  | .openTag tag => inferInstanceAs (Decidable (Text.sameFolded name tag.name = true))
  | .text _ | .comment _ | .cdata _ | .closeTag _ => isFalse id

/-- A tag with a spec is checked against it. -/
theorem check_openTag {specs : TagSpecs} {tag : OpenTag} {spec : TagSpec} (h : specs.find? tag.name = some spec) :
    check specs (.openTag tag) = checkTag tag spec := by
  simp [check, h]

/-- The rule looks at a registry through the spec of the tag only. -/
theorem check_congr {a b : TagSpecs} {event : Event}
    (h : ∀ tag, event = .openTag tag → a.find? tag.name = b.find? tag.name) : check a event = check b event := by
  cases event with
  | openTag tag => simp only [check, h tag rfl]
  | _ => rfl

theorem specsOf_object {members : List (String × Json)} {user : TagSpecs}
    (h : TagSpecs.ofOverrides members = .ok user) :
    specsOf (.object members) = .ok (TagSpecs.builtin.merge user) := by
  simp only [specsOf, RuleOption.object?, h, Except.map]

/-- A tag that no member names is checked as without overrides. -/
theorem check_merge_of_forall_not {members : List (String × Json)} {user : TagSpecs} {event : Event}
    (h : TagSpecs.ofOverrides members = .ok user) (hno : ∀ m ∈ members, ¬ Names m.1 event) :
    check (TagSpecs.builtin.merge user) event = check TagSpecs.builtin event := by
  refine check_congr fun tag he => ?_
  subst he
  rw [TagSpecs.find?_merge, TagSpecs.find?_ofOverrides_none h hno, Option.none_or]

/-- A tag that a member names is checked against the last such member alone. -/
theorem check_merge_last {as bs : List (String × Json)} {k : String} {v : Json} {user : TagSpecs} {event : Event}
    (h : TagSpecs.ofOverrides (as ++ (k, v) :: bs) = .ok user) (hk : Names k event)
    (hbs : ∀ m ∈ bs, ¬ Names m.1 event) :
    ∃ only, TagSpecs.ofOverrides [(k, v)] = .ok only ∧
      check (TagSpecs.builtin.merge user) event = check only event := by
  cases event with
  | openTag tag =>
    obtain ⟨spec, hread, hfind⟩ := TagSpecs.find?_ofOverrides_last h hk hbs
    have hname : spec.name = Text.fold tag.name := (TagSpecs.name_of_readSpec hread).trans (beq_iff_eq.mp hk)
    refine ⟨_, TagSpecs.ofOverrides_singleton hread, check_congr fun tag' he => ?_⟩
    cases he
    rw [TagSpecs.find?_merge, hfind, TagSpecs.find?_ofSpecs_singleton hname, Option.some_or]
  | _ => exact hk.elim

/-- An option that is no object is the option of an object without members. -/
theorem specsOf_of_object?_eq_none {option : RuleOption} (h : option.object? = none) :
    specsOf option = .ok TagSpecs.builtin ∧ specsOf (.object []) = .ok TagSpecs.builtin := by
  constructor
  · rw [specsOf, h]
  · have hnil : TagSpecs.ofOverrides [] = .ok (TagSpecs.ofSpecs []) := rfl
    exact specsOf_object hnil

/-- **Overrides are local and shallow.**  Opening tags that no key of an accepted object names are checked as
without overrides; the others are checked against the entry of the greatest key that names them and nothing else.
Options that are no objects all check like the object without members. -/
theorem overrides_local_and_shallow :
    (∀ (o : SortedMap String Json) (user : TagSpecs), TagSpecs.ofOverrides o.entries = .ok user →
      ∃ specs plain, specsOf (.object o.entries) = .ok specs ∧ specsOf (.bool true) = .ok plain ∧
        ∀ event,
          ((∀ k ∈ o.keys, ¬ Names k event) → check specs event = check plain event) ∧
          ((∃ k ∈ o.keys, Names k event) →
            ∃ k v only, o.get? k = some v ∧ Names k event ∧ (∀ k' ∈ o.keys, Names k' event → k' ≤ k) ∧
              TagSpecs.ofOverrides [(k, v)] = .ok only ∧ check specs event = check only event)) ∧
    ∀ option : RuleOption, option.object? = none →
      ∃ specs empty, specsOf option = .ok specs ∧ specsOf (.object []) = .ok empty ∧ check specs = check empty := by
  constructor
  · intro o user h
    refine ⟨_, _, specsOf_object h, rfl, fun event => ⟨fun hno => ?_, fun hsome => ?_⟩⟩
    · exact check_merge_of_forall_not h fun m hm => hno m.1 (List.mem_map_of_mem hm)
    · have hentry : ∃ e ∈ o.entries, Names e.1 event := by
        obtain ⟨k, hk, hn⟩ := hsome
        obtain ⟨e, he, rfl⟩ := List.mem_map.mp hk
        exact ⟨e, he, hn⟩
      obtain ⟨as, ⟨k, v⟩, bs, hes, hk, hbs⟩ := exists_last hentry
      obtain ⟨only, honly, hcheck⟩ := check_merge_last (hes ▸ h) hk hbs
      have hget : o.get? k = some v := by
        rw [SortedMap.get?_eq_some_iff, hes]
        exact List.mem_append_right as List.mem_cons_self
      have hlast : ∀ k' ∈ o.keys, Names k' event → k' ≤ k := fun k' hk' hn =>
        SortedMap.le_of_entries_eq (p := (Names · event)) hes hbs hk' hn
      exact ⟨k, v, only, hget, hk, hlast, honly, hcheck⟩
  · intro option h
    obtain ⟨hs, he⟩ := specsOf_of_object?_eq_none h
    exact ⟨_, _, hs, he, rfl⟩

/-- Two spellings of one tag; the small one is greater. -/
def sampleOverrides : SortedMap String Json :=
  .ofList [("img", .object [("attrsRequired", .array [.string "src"])]), ("IMG", .object [("selfclosing", .bool true)])]

/-- A tag that both entries name. -/
def sampleImage : Event := .openTag (OpenTag.new "Img" 1 1)

/-- A tag that no entry names. -/
def sampleLink : Event := .openTag (OpenTag.new "a" 1 1)

theorem overrides_local_and_shallow_sample :
    (∃ user, TagSpecs.ofOverrides sampleOverrides.entries = .ok user) ∧
    (∀ k ∈ sampleOverrides.keys, ¬ Names k sampleLink) ∧ (∃ k ∈ sampleOverrides.keys, Names k sampleImage) ∧
    (∃ specs plain, specsOf (.object sampleOverrides.entries) = .ok specs ∧ specsOf (.bool true) = .ok plain ∧
      check specs sampleLink = check plain sampleLink ∧
      ∃ k v only, sampleOverrides.get? k = some v ∧ Names k sampleImage ∧
        (∀ k' ∈ sampleOverrides.keys, Names k' sampleImage → k' ≤ k) ∧ TagSpecs.ofOverrides [(k, v)] = .ok only ∧
        check specs sampleImage = check only sampleImage) ∧
    ∃ specs empty, specsOf (.other (.string "on")) = .ok specs ∧ specsOf (.object []) = .ok empty ∧
      check specs = check empty := by
  have hlink : ∀ k ∈ sampleOverrides.keys, ¬ Names k sampleLink := by decide
  have himage : ∃ k ∈ sampleOverrides.keys, Names k sampleImage := by decide
  obtain ⟨specs, plain, hs, hp, h⟩ := overrides_local_and_shallow.1 sampleOverrides _ rfl
  refine ⟨⟨_, rfl⟩, hlink, himage, ⟨specs, plain, hs, hp, (h sampleLink).1 hlink, (h sampleImage).2 himage⟩, ?_⟩
  exact overrides_local_and_shallow.2 _ rfl

end TagsCheck

end TagLint

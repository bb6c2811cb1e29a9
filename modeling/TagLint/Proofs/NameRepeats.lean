import Mathlib.Data.List.Forall2
import Mathlib.Data.List.Induction
import TagLint.Proofs.MapLookup
import TagLint.Rule.AttrNoDuplication

/-!
# Repeated names — what one pass over the attributes of a tag notes

The duplication rule passes the attributes of a tag once.  `Pass.Notes` says what it knows behind some of them, each
step keeps it (`Pass.Notes.step`), so it holds at the end (`notes_foldl`).

**`check_eq_iff_reportsRepeats`**: the rule reports exactly the names that stand on a tag at least twice, each at its
second attribute, in the order of the first ones.
-/

namespace TagLint

/-! ## Members of a list that pass a test -/

/-- The `n`-th member that passes a test stands behind `n` others that do. -/
theorem getElem?_filter_eq_some_iff {α : Type} {p : α → Bool} {l : List α} {n : Nat} {a : α} :
    (l.filter p)[n]? = some a ↔ ∃ as bs, l = as ++ a :: bs ∧ p a ∧ as.countP p = n := by
  induction l generalizing n with
  | nil => simp
  | cons b l ih =>
    constructor
    · intro h
      by_cases hb : p b
      · rw [List.filter_cons_of_pos hb] at h
        cases n with
        | zero =>
          rw [List.getElem?_cons_zero, Option.some.injEq] at h
          subst h
          exact ⟨[], l, rfl, hb, rfl⟩
        | succ n =>
          obtain ⟨as, bs, rfl, ha, hn⟩ := ih.mp h
          exact ⟨b :: as, bs, rfl, ha, by rw [List.countP_cons_of_pos hb, hn]⟩
      · rw [List.filter_cons_of_neg hb] at h
        obtain ⟨as, bs, rfl, ha, hn⟩ := ih.mp h
        exact ⟨b :: as, bs, rfl, ha, by rw [List.countP_cons_of_neg hb, hn]⟩
    · rintro ⟨as, bs, heq, ha, hn⟩
      cases as with
      | nil =>
        obtain ⟨rfl, rfl⟩ := List.cons.inj heq
        subst hn
        rw [List.filter_cons_of_pos ha]
        rfl
      | cons c as =>
        obtain ⟨rfl, rfl⟩ := List.cons.inj heq
        by_cases hb : p b
        · rw [List.countP_cons_of_pos hb] at hn
          subst hn
          rw [List.filter_cons_of_pos hb, List.getElem?_cons_succ]
          exact ih.mpr ⟨as, bs, rfl, ha, rfl⟩
        · rw [List.countP_cons_of_neg hb] at hn
          rw [List.filter_cons_of_neg hb]
          exact ih.mpr ⟨as, bs, rfl, ha, hn⟩

/-- The second member is the next one that comes to a list of one, and stays. -/
theorem getElem?_one_concat {α : Type} {l : List α} (h : l ≠ []) (a : α) : (l ++ [a])[1]? = l[1]?.or (some a) := by
  match l with
  | [b] => rfl
  | b :: c :: l => rfl

namespace AttrNoDuplication

variable {attrs : List Attribute} {pass : Pass} {name : String} {tag : OpenTag}

/-! ## One pass -/

/-- What a pass has noted behind the attributes `attrs`: their names, by first occurrence, and the second attribute of
each of them, if there is one. -/
structure Pass.Notes (pass : Pass) (attrs : List Attribute) : Prop where
  mem_iff : ∀ name, name ∈ pass.firstSeen ↔ name ∈ attrs.map (·.name)
  ordered : pass.firstSeen.Pairwise fun a b => (attrs.map (·.name)).idxOf a < (attrs.map (·.name)).idxOf b
  get?_eq : ∀ name, pass.repeats.get? name =
    if name ∈ attrs.map (·.name) then some (attrs.filter (·.name == name))[1]? else none

theorem notes_start : Pass.start.Notes [] where
  mem_iff := by simp [Pass.start]
  ordered := .nil
  get?_eq := by simp [Pass.start]

/-- Places of names stay what they are when an attribute comes behind them. -/
theorem Pass.Notes.ordered_concat (h : pass.Notes attrs) (attr : Attribute) :
    pass.firstSeen.Pairwise fun a b =>
      ((attrs ++ [attr]).map (·.name)).idxOf a < ((attrs ++ [attr]).map (·.name)).idxOf b := by
  refine h.ordered.imp_of_mem fun {a b} ha hb hab => ?_
  rw [List.map_append, List.idxOf_append_of_mem ((h.mem_iff a).mp ha), List.idxOf_append_of_mem ((h.mem_iff b).mp hb)]
  exact hab

/-- A name of no attribute so far. -/
theorem Pass.Notes.step_new (h : pass.Notes attrs) {attr : Attribute} (hnew : attr.name ∉ attrs.map (·.name)) :
    (pass.step attr).Notes (attrs ++ [attr]) := by
  have hget := h.get?_eq attr.name
  rw [if_neg hnew] at hget
  have hstep : pass.step attr = ⟨pass.firstSeen ++ [attr.name], pass.repeats.insert attr.name none⟩ := by
    rw [Pass.step, hget]
  rw [hstep]
  refine ⟨fun name => ?_, ?_, fun name => ?_⟩
  · simp only [List.map_append, List.mem_append, List.map_singleton, h.mem_iff name]
  · refine List.pairwise_append.mpr ⟨h.ordered_concat attr, List.pairwise_singleton _ _, fun a ha b hb => ?_⟩
    obtain rfl := List.mem_singleton.mp hb
    have ha := (h.mem_iff a).mp ha
    rw [List.map_append, List.idxOf_append_of_mem ha, List.idxOf_append_of_notMem hnew]
    exact Nat.lt_add_right _ (List.idxOf_lt_length_of_mem ha)
  · rw [SortedMap.get?_insert]
    by_cases hname : name = attr.name
    · have hnone : attrs.filter (·.name == attr.name) = [] :=
        List.filter_eq_nil_iff.mpr fun a ha heq => hnew (beq_iff_eq.mp heq ▸ List.mem_map_of_mem ha)
      simp [hname, hnone]
    · simp [h.get?_eq name, hname, Ne.symm hname]

/-- A name that has occurred. -/
theorem Pass.Notes.step_repeat (h : pass.Notes attrs) {attr : Attribute} (hold : attr.name ∈ attrs.map (·.name)) :
    (pass.step attr).Notes (attrs ++ [attr]) := by
  have hget := h.get?_eq attr.name
  rw [if_pos hold] at hget
  have hstep : pass.step attr = { pass with
      repeats := pass.repeats.insert attr.name ((attrs.filter (·.name == attr.name))[1]?.or (some attr)) } := by
    rw [Pass.step, hget]
  rw [hstep]
  refine ⟨fun name => ?_, h.ordered_concat attr, fun name => ?_⟩
  · rw [List.map_append, List.mem_append, ← h.mem_iff name]
    refine ⟨.inl, fun hmem => hmem.elim id fun hlast => ?_⟩
    rw [List.mem_singleton.mp hlast]
    exact (h.mem_iff _).mpr hold
  · rw [SortedMap.get?_insert]
    by_cases hname : name = attr.name
    · have hsome : attrs.filter (·.name == attr.name) ≠ [] := by
        obtain ⟨a, ha, heq⟩ := List.mem_map.mp hold
        exact List.ne_nil_of_mem (List.mem_filter.mpr ⟨ha, beq_iff_eq.mpr heq⟩)
      have hsecond := getElem?_one_concat hsome attr
      simp [hname, hsecond]
    · simp [h.get?_eq name, hname, Ne.symm hname]

theorem Pass.Notes.step (h : pass.Notes attrs) (attr : Attribute) : (pass.step attr).Notes (attrs ++ [attr]) := by
  by_cases hmem : attr.name ∈ attrs.map (·.name)
  · exact h.step_repeat hmem
  · exact h.step_new hmem

/-- At the end of a pass, its notes are about all attributes. -/
theorem notes_foldl (attrs : List Attribute) : (attrs.foldl Pass.step .start).Notes attrs := by
  induction attrs using List.reverseRecOn with
  | nil => exact notes_start
  | append_singleton attrs attr ih =>
    rw [List.foldl_concat]
    exact ih.step attr

theorem repeats_eq (attrs : List Attribute) : repeats attrs =
    (attrs.foldl Pass.step .start).firstSeen.filterMap fun name => (attrs.filter (·.name == name))[1]? := by
  have hnotes := notes_foldl attrs
  refine List.filterMap_congr fun name hname => ?_
  rw [hnotes.get?_eq, if_pos ((hnotes.mem_iff name).mp hname), Option.join_some]

/-! ## What the rule reports -/

/-- A finding about a name that a tag repeats, at the second attribute of that name. -/
structure ReportsRepeat (tag : OpenTag) (name : String) (f : Finding) : Prop where
  severity : f.severity = .error
  message : f.message = "Duplicate of attribute name [ " ++ name ++ " ] was found."
  line : f.line = tag.line
  col : ∃ before attr after, tag.attrs = before ++ attr :: after ∧ attr.name = name ∧
    (before.map (·.name)).count name = 1 ∧ f.col.toNat = min (tag.col.toNat + attr.offset.toNat) (UInt32.size - 1)
  ruleId : f.ruleId = "attr-no-duplication"
  raw : f.raw = tag.raw

/-- The findings of the duplication rule on an event. -/
inductive ReportsRepeats : Event → List Finding → Prop
  | otherEvent {event : Event} (h : ∀ tag, event ≠ .openTag tag) : ReportsRepeats event []
  | exempt {tag : OpenTag} (h : Text.sameFolded tag.name "ismodule") : ReportsRepeats (.openTag tag) []
  /-- The names that stand on the tag at least twice, by first occurrence, and a finding about each of them. -/
  | names {tag : OpenTag} {names : List String} {findings : List Finding}
      (h : ¬ Text.sameFolded tag.name "ismodule")
      (mem_iff : ∀ name, name ∈ names ↔ 2 ≤ (tag.attrs.map (·.name)).count name)
      (ordered : names.Pairwise fun a b => (tag.attrs.map (·.name)).idxOf a < (tag.attrs.map (·.name)).idxOf b)
      (hfindings : List.Forall₂ (ReportsRepeat tag) names findings) : ReportsRepeats (.openTag tag) findings

theorem countP_name_eq (attrs : List Attribute) (name : String) :
    attrs.countP (·.name == name) = (attrs.map (·.name)).count name := by
  rw [List.count_eq_countP, List.countP_map]
  rfl

/-- A name has a second attribute if it stands there twice. -/
theorem isSome_second_iff : (attrs.filter (·.name == name))[1]?.isSome ↔ 2 ≤ (attrs.map (·.name)).count name := by
  rw [← countP_name_eq, List.countP_eq_length_filter]
  simp [Nat.lt_iff_add_one_le]

/-- The names of a pass that have a second attribute. -/
def repeatedNames (attrs : List Attribute) : List String :=
  (attrs.foldl Pass.step .start).firstSeen.filter fun name => (attrs.filter (·.name == name))[1]?.isSome

theorem mem_repeatedNames : name ∈ repeatedNames attrs ↔ 2 ≤ (attrs.map (·.name)).count name := by
  rw [repeatedNames, List.mem_filter, isSome_second_iff, (notes_foldl attrs).mem_iff, ← List.one_le_count_iff]
  omega

theorem ordered_repeatedNames (attrs : List Attribute) :
    (repeatedNames attrs).Pairwise fun a b => (attrs.map (·.name)).idxOf a < (attrs.map (·.name)).idxOf b :=
  (notes_foldl attrs).ordered.filter _

theorem reportsRepeat_iff {f : Finding} : ReportsRepeat tag name f ↔
    (tag.attrs.filter (·.name == name))[1]?.map (finding tag) = some f := by
  rw [Option.map_eq_some_iff]
  constructor
  · rintro ⟨severity, message, line, ⟨before, attr, after, hattrs, rfl, hcount, hcol⟩, ruleId, raw⟩
    refine ⟨attr, getElem?_filter_eq_some_iff.mpr ⟨before, after, hattrs, beq_self_eq_true _, ?_⟩, ?_⟩
    · rw [countP_name_eq, hcount]
    · have hcol' : tag.attrCol attr = f.col := by
        rw [← UInt32.toNat_inj, hcol, OpenTag.attrCol, Coord.toNat_satAdd]
        rfl
      cases f
      simp_all [finding, Finding.error, AttrNoDuplication.ruleId]
  · rintro ⟨attr, hsecond, rfl⟩
    obtain ⟨before, after, hattrs, hname, hcount⟩ := getElem?_filter_eq_some_iff.mp hsecond
    obtain rfl := beq_iff_eq.mp hname
    rw [countP_name_eq] at hcount
    exact ⟨rfl, rfl, rfl, ⟨before, attr, after, hattrs, rfl, hcount, Coord.toNat_satAdd _ _⟩, rfl, rfl⟩

theorem forall₂_filterMap {α β : Type} {g : α → Option β} (l : List α) :
    List.Forall₂ (fun a b => g a = some b) (l.filter fun a => (g a).isSome) (l.filterMap g) := by
  induction l with
  | nil => exact .nil
  | cons a l ih =>
    cases h : g a with
    | none => simpa [h] using ih
    | some b => simpa [h] using ih

/-- Lists with the same members, in the same strict order, are one list. -/
theorem eq_of_ordered {place : String → ℕ} {as bs : List String} (hmem : ∀ a, a ∈ as ↔ a ∈ bs)
    (has : as.Pairwise fun a b => place a < place b) (hbs : bs.Pairwise fun a b => place a < place b) : as = bs := by
  have hne : ∀ a b : String, place a < place b → a ≠ b := fun a b hlt heq => (heq ▸ hlt).false
  have hperm := (List.perm_ext_iff_of_nodup (has.imp (hne _ _)) (hbs.imp (hne _ _))).mpr hmem
  exact hperm.eq_of_pairwise (fun a b _ _ hab hba => absurd hab hba.asymm) has hbs

theorem forall₂_reportsRepeat (tag : OpenTag) :
    List.Forall₂ (ReportsRepeat tag) (repeatedNames tag.attrs) ((repeats tag.attrs).map (finding tag)) := by
  rw [repeats_eq, List.forall₂_map_right_iff]
  refine (forall₂_filterMap _).imp fun name attr hsecond => reportsRepeat_iff.mpr ?_
  rw [hsecond, Option.map_some]

theorem rightUnique_reportsRepeat (tag : OpenTag) : Relator.RightUnique (ReportsRepeat tag) := fun _ _ _ hf hg =>
  Option.some.inj ((reportsRepeat_iff.mp hf).symm.trans (reportsRepeat_iff.mp hg))

/-- **The duplication rule meets its specification.**  On every event it reports exactly the findings that are due: one
for each repeated name, by first occurrence, at its second attribute. -/
theorem check_eq_iff_reportsRepeats (event : Event) (findings : List Finding) :
    check event = findings ↔ ReportsRepeats event findings := by
  constructor
  · rintro rfl
    cases event with
    | openTag tag =>
      by_cases hexempt : Text.sameFolded tag.name exemptTag
      · have hcheck : check (.openTag tag) = [] := if_pos hexempt
        exact hcheck ▸ .exempt hexempt
      · have hcheck : check (.openTag tag) = (repeats tag.attrs).map (finding tag) := if_neg hexempt
        exact hcheck ▸ .names hexempt (fun _ => mem_repeatedNames) (ordered_repeatedNames _)
          (forall₂_reportsRepeat tag)
    | _ => exact .otherEvent nofun
  · intro h
    cases h with
    | otherEvent h =>
      cases event with
      | openTag tag => exact absurd rfl (h tag)
      | _ => rfl
    | exempt h => exact if_pos h
    | @names tag names findings h mem_iff ordered hfindings =>
      have hcheck : check (.openTag tag) = (repeats tag.attrs).map (finding tag) := if_neg h
      -- the order leaves one list of the repeated names, and a name one finding
      obtain rfl : names = repeatedNames tag.attrs :=
        eq_of_ordered (fun name => (mem_iff name).trans mem_repeatedNames.symm) ordered (ordered_repeatedNames _)
      rw [hcheck]
      exact (rightUnique_reportsRepeat tag).forall₂ (forall₂_reportsRepeat tag) hfindings

end AttrNoDuplication

end TagLint

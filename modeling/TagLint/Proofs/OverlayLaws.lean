import TagLint.Proofs.CascadeView

/-!
# Overlay laws — configurations laid over each other

* `SortedMap.override` is a right-biased union: associative and idempotent, with the empty map on both sides as its
  unit (`override_assoc`, `override_self`, `empty_override`, `override_empty`).  It commutes on two maps that agree
  where both have an entry, and on no others (`override_comm_iff`).
* `Cascade.Overlays`: what a cascade lays over the defaults for a path.  There is exactly one such configuration, from
  the editor, from a rule file or empty, and it determines what is resolved (`value_resolve_of_overlays`).

**`overlay_laws`** puts these together.
-/

open Std

namespace TagLint

namespace SortedMap

variable {κ α : Type} [Ord κ] [TransOrd κ] [LawfulEqOrd κ]

theorem override_assoc (a b c : SortedMap κ α) : override (override a b) c = override a (override b c) := by
  apply ext_get?
  intro k
  rw [get?_override, get?_override, get?_override, get?_override, Option.or_assoc]

theorem override_self (a : SortedMap κ α) : override a a = a := by
  apply ext_get?
  intro k
  rw [get?_override, Option.or_self]

theorem empty_override (a : SortedMap κ α) : override empty a = a := by
  apply ext_get?
  intro k
  rw [get?_override, get?_empty, Option.or_none]

omit [LawfulEqOrd κ] in
theorem override_empty (a : SortedMap κ α) : override a empty = a := rfl

/-- Maps agree where both have an entry. -/
def Agree (a b : SortedMap κ α) : Prop := ∀ k x y, a.get? k = some x → b.get? k = some y → x = y

theorem override_comm_iff {a b : SortedMap κ α} : override a b = override b a ↔ Agree a b := by
  constructor
  · intro h k x y hx hy
    have hk : (override a b).get? k = (override b a).get? k := by rw [h]
    rw [get?_override, get?_override, hx, hy] at hk
    exact (Option.some.inj hk).symm
  · intro h
    apply ext_get?
    intro k
    rw [get?_override, get?_override]
    rcases hx : a.get? k with _ | x
    · rw [Option.or_none, Option.none_or]
    · rcases hy : b.get? k with _ | y
      · rw [Option.or_none, Option.none_or]
      · rw [Option.some_or, Option.some_or, h k x y hx hy]

/-- The keys of two maps together. -/
theorem mem_keys_override {a b : SortedMap κ α} {k : κ} : k ∈ (override a b).keys ↔ k ∈ a.keys ∨ k ∈ b.keys := by
  rw [mem_keys_iff, mem_keys_iff, mem_keys_iff, contains, contains, contains, get?_override, Option.isSome_or,
    Bool.or_eq_true, or_comm]

end SortedMap

/-! ## What a cascade lays over the defaults -/

namespace Cascade

variable {fs : FileSystem} {c : Cascade} {p : Path} {used other : RuleConfig}

/-- The configuration that is laid over the defaults for a path: the rules of the editor if there are any, else the
nearest rule file, else nothing. -/
inductive Overlays (fs : FileSystem) (c : Cascade) (p : Path) : RuleConfig → Prop
  | editor (hrules : ¬ c.editorOverride.isEmpty) : Overlays fs c p c.editorOverride
  | ruleFile {found : RuleConfig} (hrules : c.editorOverride.isEmpty)
      (hfound : (c.findOverride fs p).value.1 = some found) : Overlays fs c p found
  | nothing (hrules : c.editorOverride.isEmpty) (hfound : (c.findOverride fs p).value.1 = none) :
      Overlays fs c p .empty

theorem exists_overlays (fs : FileSystem) (c : Cascade) (p : Path) : ∃ used, Overlays fs c p used := by
  by_cases hrules : c.editorOverride.isEmpty
  · rcases hfound : (c.findOverride fs p).value.1 with _ | found
    · exact ⟨_, .nothing hrules hfound⟩
    · exact ⟨_, .ruleFile hrules hfound⟩
  · exact ⟨_, .editor hrules⟩

theorem Overlays.unique (h : Overlays fs c p used) (h' : Overlays fs c p other) : other = used := by
  cases h with
  | editor hrules =>
    cases h' with
    | editor => rfl
    | ruleFile hempty | nothing hempty => exact absurd hempty hrules
  | ruleFile hrules hfound =>
    cases h' with
    | editor hset => exact absurd hrules hset
    | ruleFile _ hfound' => exact Option.some.inj (hfound'.symm.trans hfound)
    | nothing _ hfound' => exact nomatch hfound'.symm.trans hfound
  | nothing hrules hfound =>
    cases h' with
    | editor hset => exact absurd hrules hset
    | ruleFile _ hfound' => exact nomatch hfound'.symm.trans hfound
    | nothing => rfl

/-- What is resolved is the defaults under that configuration, wherever it comes from. -/
theorem value_resolve_of_overlays (h : Overlays fs c p used) :
    (c.resolve fs p).value.1 = RuleConfig.defaults.overlay used := by
  rw [resolve]
  cases h with
  | editor hrules =>
    rw [if_neg hrules]
    rfl
  | ruleFile hrules hfound =>
    rw [if_pos hrules, Logged.value_bind]
    rcases hsearch : (c.findOverride fs p).value with ⟨found?, after⟩
    obtain rfl : found? = some _ := by rw [← hfound, hsearch]
    rfl
  | nothing hrules hfound =>
    rw [if_pos hrules, Logged.value_bind]
    rcases hsearch : (c.findOverride fs p).value with ⟨found?, after⟩
    obtain rfl : found? = none := by rw [← hfound, hsearch]
    rfl

end Cascade

/-- **Overlay laws.**  An option of the upper configuration counts as it is, else the one below it; laying over is
associative and idempotent, the empty configuration changes nothing on either side, and two configurations may change
places when they agree on the rules that both have, and only then.  So for every path and state of a cascade there is
one configuration under which the defaults are resolved: the rules are those of the defaults and of that configuration,
none of the defaults is ever missing, and laying it over once more changes nothing. -/
theorem RuleConfig.overlay_laws :
    (∀ (a b : RuleConfig) (k : String), (a.overlay b).get? k = match b.get? k with
      | some option => some option
      | none => a.get? k) ∧
    (∀ a b c : RuleConfig, (a.overlay b).overlay c = a.overlay (b.overlay c)) ∧
    (∀ a : RuleConfig, a.overlay a = a) ∧
    (∀ a : RuleConfig, RuleConfig.overlay .empty a = a ∧ a.overlay .empty = a) ∧
    (∀ a b : RuleConfig, a.overlay b = b.overlay a ↔
      ∀ k x y, a.get? k = some x → b.get? k = some y → x = y) ∧
    ∀ (fs : FileSystem) (c : Cascade) (p : Path),
      let rules := (c.resolve fs p).value.1
      ∃ used, c.Overlays fs p used ∧ (∀ other, c.Overlays fs p other → other = used) ∧
        rules = RuleConfig.defaults.overlay used ∧
        (∀ k, k ∈ rules.keys ↔ k ∈ RuleConfig.defaults.keys ∨ k ∈ used.keys) ∧
        (∀ k ∈ RuleConfig.defaults.keys, k ∈ rules.keys) ∧
        rules.overlay used = rules := by
  refine ⟨fun a b k => ?_, SortedMap.override_assoc, SortedMap.override_self,
    fun a => ⟨SortedMap.empty_override a, SortedMap.override_empty a⟩, fun a b => SortedMap.override_comm_iff, ?_⟩
  · have hget : (a.overlay b).get? k = (b.get? k).or (a.get? k) := SortedMap.get?_override a b k
    rw [hget]
    rcases b.get? k with _ | option
    · rfl
    · rfl
  · intro fs c p rules
    obtain ⟨used, hused⟩ := Cascade.exists_overlays fs c p
    have hrules : rules = RuleConfig.defaults.overlay used := Cascade.value_resolve_of_overlays hused
    have hkeys : ∀ k, k ∈ rules.keys ↔ k ∈ RuleConfig.defaults.keys ∨ k ∈ used.keys := by
      intro k
      rw [hrules]
      exact SortedMap.mem_keys_override
    have hagain : rules.overlay used = rules := by
      show SortedMap.override rules used = rules
      rw [hrules, RuleConfig.overlay, SortedMap.override_assoc, SortedMap.override_self]
    exact ⟨used, hused, fun other hother => hused.unique hother, hrules, hkeys,
      fun k hk => (hkeys k).mpr (.inl hk), hagain⟩

/-- A limit with a nested object beside it. -/
def RuleConfig.nestedLimit : RuleConfig :=
  .ofList [("max-length", .object [("max", .number (.natural 80)), ("tabs", .object [("width", .number (.natural 4))])])]

def RuleConfig.plainLimit : RuleConfig := .ofList [("max-length", .object [("max", .number (.natural 100))])]

/-- The object of the upper configuration counts alone, so the two cannot change places. -/
theorem RuleConfig.overlay_laws_nestedLimit :
    ((nestedLimit.overlay plainLimit).get? "max-length").bind (·.object?.map fun members => members.map (·.1)) =
      some ["max"] ∧
    nestedLimit.overlay plainLimit ≠ plainLimit.overlay nestedLimit := by
  obtain ⟨hget, -, -, -, hcomm, -⟩ := overlay_laws
  constructor
  · rw [hget]
    decide +kernel
  · rw [ne_eq, hcomm]
    intro hagree
    have hsame := hagree "max-length" _ _ rfl rfl
    exact absurd (congrArg (fun option => option.object?.map List.length) hsame) (by decide)

end TagLint

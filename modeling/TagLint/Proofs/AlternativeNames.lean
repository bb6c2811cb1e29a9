import TagLint.Proofs.RequirementVerdicts
import TagLint.Proofs.SplitText

/-!
# Alternative names — names between bars, and the text that shows them

* `BetweenBars text pieces`: the pieces of a text, empty ones included.  Every text has such pieces, and no others
  (`betweenBars_iff`); the names of a text are those that are not empty (`alternatives_eq`).
* `AreNames names`: none of the names is empty or has a bar in it.  They are the names of the text that shows them
  (`alternatives_intercalate`), and the names of any text are such names (`areNames_of_alternatives`).

**`alternatives_inverse`** puts these together, and says what this means for a name that is reported as missing.
-/

namespace TagLint.Requirement

open Text

variable {requirement : Requirement} {text name : String} {pieces names : List String} {attrs : List Attribute}

/-! ## Pieces between bars -/

/-- The pieces of a text between its bars, empty ones included. -/
structure BetweenBars (text : String) (pieces : List String) : Prop where
  ne_nil : pieces ≠ []
  text_eq : String.intercalate "|" pieces = text
  not_mem : ∀ piece ∈ pieces, '|' ∉ piece.toList

theorem toList_intercalate_bar (pieces : List String) :
    (String.intercalate "|" pieces).toList = joinWith '|' (pieces.map String.toList) := by
  rw [String.toList_intercalate, joinWith_eq_intercalate]
  rfl

theorem betweenBars_iff : BetweenBars text pieces ↔ pieces = (splitAt '|' text.toList).map String.ofList := by
  constructor
  · intro h
    have hne : pieces.map String.toList ≠ [] := mt List.map_eq_nil_iff.mp h.ne_nil
    have hbar : ∀ piece ∈ pieces.map String.toList, '|' ∉ piece := List.forall_mem_map.mpr h.not_mem
    have hsplit := splitAt_joinWith hne hbar
    rw [← toList_intercalate_bar, h.text_eq] at hsplit
    rw [hsplit, List.map_map]
    simp
  · rintro rfl
    refine ⟨mt List.map_eq_nil_iff.mp (splitAt_ne_nil _ _), ?_, ?_⟩
    · rw [← String.toList_inj, toList_intercalate_bar, List.map_map]
      simp [joinWith_splitAt]
    · intro piece hpiece
      obtain ⟨cs, hcs, rfl⟩ := List.mem_map.mp hpiece
      rw [String.toList_ofList]
      exact not_mem_of_mem_splitAt hcs

/-- The names of a text are its pieces without the empty ones. -/
theorem alternatives_eq (h : BetweenBars text pieces) : alternatives text = .oneOf (pieces.filter (· ≠ "")) := by
  rw [betweenBars_iff.mp h, alternatives, List.filter_map]
  congr 2
  refine List.filter_congr fun cs _ => ?_
  cases cs <;> simp

/-! ## Names -/

/-- None of the names is empty or has a bar in it. -/
def AreNames (names : List String) : Prop := ∀ name ∈ names, name ≠ "" ∧ '|' ∉ name.toList

theorem BetweenBars.areNames (h : BetweenBars text pieces) : AreNames (pieces.filter (· ≠ "")) := by
  intro name hname
  obtain ⟨hpiece, hne⟩ := List.mem_filter.mp hname
  exact ⟨of_decide_eq_true hne, h.not_mem name hpiece⟩

theorem areNames_of_alternatives (h : alternatives text = .oneOf names) : AreNames names := by
  have hpieces : BetweenBars text ((splitAt '|' text.toList).map String.ofList) := betweenBars_iff.mpr rfl
  rw [alternatives_eq hpieces] at h
  rw [← Requirement.oneOf.inj h]
  exact hpieces.areNames

/-- Names are found again in the text that shows them. -/
theorem alternatives_intercalate (h : AreNames names) : alternatives (String.intercalate "|" names) = .oneOf names := by
  by_cases hne : names = []
  · rw [hne]
    rfl
  · have hpieces : BetweenBars (String.intercalate "|" names) names := ⟨hne, rfl, fun name hname => (h name hname).2⟩
    have hall : names.filter (· ≠ "") = names :=
      List.filter_eq_self.mpr fun name hname => decide_eq_true (h name hname).1
    rw [alternatives_eq hpieces, hall]

theorem alternatives_displayName (text : String) : alternatives (alternatives text).displayName = alternatives text := by
  obtain ⟨names, hnames⟩ : ∃ names, alternatives text = .oneOf names := ⟨_, rfl⟩
  rw [hnames]
  exact alternatives_intercalate (areNames_of_alternatives hnames)

/-- A missing requirement is reported by the name that it has in messages. -/
theorem name_of_check_eq_missing (h : requirement.check attrs = .missing name) : name = requirement.displayName := by
  have hverdict := check_eq_iff_verdict.mp h
  cases hverdict with
  | lacking => rfl
  | absent => rfl

/-- **Names and the text that shows them are inverse.**  The names of a text are its pieces between bars, in order and
without the empty ones.  The text that shows the names of a text has these names again, and so has the text that shows
any list of names.  So what is reported as missing can be read as a requirement, which the same attributes satisfy. -/
theorem alternatives_inverse :
    (∀ text, ∃ pieces, BetweenBars text pieces ∧ (∀ others, BetweenBars text others → others = pieces) ∧
      alternatives text = .oneOf (pieces.filter (· ≠ "")) ∧ ∀ name ∈ pieces.filter (· ≠ ""), '|' ∉ name.toList) ∧
    (∀ text, alternatives (alternatives text).displayName = alternatives text) ∧
    (∀ names : List String, (∀ name ∈ names, name ≠ "" ∧ '|' ∉ name.toList) →
      alternatives (String.intercalate "|" names) = .oneOf names) ∧
    ∀ (requirement : Requirement) (attrs : List Attribute) (name : String),
      (∃ text, requirement = alternatives text) → requirement.check attrs = .missing name →
      ∀ others, (alternatives name).check others = .satisfied ↔ requirement.check others = .satisfied := by
  refine ⟨fun text => ?_, alternatives_displayName, fun names h => alternatives_intercalate h, ?_⟩
  · have hpieces : BetweenBars text ((splitAt '|' text.toList).map String.ofList) := betweenBars_iff.mpr rfl
    exact ⟨_, hpieces, fun others hothers => betweenBars_iff.mp hothers, alternatives_eq hpieces,
      fun name hname => (hpieces.areNames name hname).2⟩
  · rintro _ attrs name ⟨text, rfl⟩ hmissing others
    rw [name_of_check_eq_missing hmissing, alternatives_displayName]

/-- Two names, with bars that have no name between them. -/
def looseBars : String := "|hour||minute|"

theorem alternatives_inverse_looseBars :
    alternatives looseBars = .oneOf ["hour", "minute"] ∧
    alternatives (String.intercalate "|" ["hour", "minute"]) = .oneOf ["hour", "minute"] ∧
    (alternatives looseBars).check [⟨"type", "daily", 6⟩] = .missing "hour|minute" ∧
    ∀ attrs, (alternatives "hour|minute").check attrs = .satisfied ↔ (alternatives looseBars).check attrs = .satisfied := by
  obtain ⟨-, -, hnames, hmissing⟩ := alternatives_inverse
  have hreported : (alternatives looseBars).check [⟨"type", "daily", 6⟩] = .missing "hour|minute" := by decide
  exact ⟨by decide, hnames _ (by decide), hreported, hmissing _ _ _ ⟨looseBars, rfl⟩ hreported⟩

end TagLint.Requirement

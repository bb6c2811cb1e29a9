import Mathlib.Data.List.Infix
import TagLint.CommandLine.Check
import TagLint.Proofs.PathComponents

/-!
# Error steps — which step of a check an error tells of

* `message_eq`: an error begins with the words of its step and the file that the step was about, and goes on with what
  went wrong.
* `ofMessage?_message`: the words of a step tell it apart from the other ones.
-/

namespace TagLint.CommandLine

/-- The steps of a check. -/
inductive Step
  | settings
  | readConfig
  | parseConfig
  | readSource
  | readEvents
  | parseEvents
  | validate
  deriving DecidableEq, Repr

namespace Step

/-- The words in front of the file that a step is about. -/
def words : Step → String
  | .settings => "Failed to load settings"
  | .readConfig => "Failed to read rule config "
  | .parseConfig => "Failed to parse rule config "
  | .readSource => "Failed to read "
  | .readEvents => "Failed to read events "
  | .parseEvents => "Failed to parse events "
  | .validate => "Failed to validate "

/-- All steps, longer words before those that they begin with. -/
def all : List Step := [.settings, .readConfig, .parseConfig, .readEvents, .readSource, .parseEvents, .validate]

/-- The step with whose words a message begins. -/
def ofMessage? (message : String) : Option Step := all.find? fun s => s.words.toList.isPrefixOf message.toList

/-- The steps that come before a step. -/
def earlier (s : Step) : List Step := all.takeWhile fun t => t ≠ s

theorem all_eq (s : Step) : ∃ later, all = s.earlier ++ s :: later := by
  cases s <;> exact ⟨_, rfl⟩

/-- A message tells of a step when it begins with its words, and with nothing that goes with the words of an earlier
one. -/
theorem ofMessage?_eq_some {message : String} {start : List Char} {s : Step} (hmessage : start <+: message.toList)
    (hs : s.words.toList <+: start)
    (h : ∀ t ∈ s.earlier, ¬ t.words.toList <+: start ∧ ¬ start <+: t.words.toList) : ofMessage? message = some s := by
  obtain ⟨later, hall⟩ := all_eq s
  rw [ofMessage?, List.find?_eq_some_iff_append]
  refine ⟨List.isPrefixOf_iff_prefix.mpr (hs.trans hmessage), s.earlier, later, hall, fun t ht => ?_⟩
  obtain ⟨hno, hno'⟩ := h t ht
  rw [Bool.not_eq_true', Bool.eq_false_iff]
  intro hprefix
  exact (List.prefix_or_prefix_of_prefix (List.isPrefixOf_iff_prefix.mp hprefix) hmessage).elim hno hno'

theorem words_apart {s : Step} (hs : s ≠ .readSource) :
    ∀ t ∈ s.earlier, ¬ t.words.toList <+: s.words.toList ∧ ¬ s.words.toList <+: t.words.toList := by
  cases s with
  | readSource => exact absurd rfl hs
  | _ => decide

end Step

namespace CheckError

/-- The step that failed. -/
def step : CheckError → Step
  | .settings _ => .settings
  | .readConfig _ _ => .readConfig
  | .parseConfig _ _ => .parseConfig
  | .readSource _ _ => .readSource
  | .readEvents _ _ => .readEvents
  | .parseEvents _ _ => .parseEvents
  | .validate _ _ => .validate

/-- The file that the step was about. -/
def subject? : CheckError → Option Path
  | .settings _ => none
  | .readConfig p _ | .parseConfig p _ | .readSource p _ | .readEvents p _ | .parseEvents p _ | .validate p _ => some p

/-- What went wrong. -/
def cause : CheckError → String
  | .settings e => e.message
  | .readConfig _ e | .readSource _ e | .readEvents _ e => e.message
  | .parseConfig _ e => e.message
  | .parseEvents _ e => e.message
  | .validate _ f => f.message

/-- An error says which step failed, on which file, and what went wrong. -/
theorem message_eq (e : CheckError) :
    ∃ behind, e.message = e.step.words ++ (e.subject?.map (·.text)).getD "" ++ ": " ++ e.cause ++ behind := by
  have hchain : ∃ more, e.chain = (e.step.words ++ (e.subject?.map (·.text)).getD "") :: (e.cause ++ "") :: more := by
    simp only [String.append_empty]
    cases e with
    | settings e => exact ⟨_, rfl⟩
    | validate p f =>
      obtain ⟨path, cause⟩ := f
      cases cause <;> exact ⟨_, rfl⟩
    | _ => exact ⟨_, rfl⟩
  obtain ⟨more, hmore⟩ := hchain
  refine ⟨String.intercalate ": " ("" :: more), ?_⟩
  rw [message, hmore, String.intercalate_cons_cons, String.intercalate_cons_append]
  simp only [String.append_assoc]

/-- The words of a step tell it apart from the other steps, if the source is an absolute path. -/
theorem ofMessage?_message {e : CheckError} (h : ∀ p ∈ e.subject?, e.step = .readSource → p.isAbsolute) :
    Step.ofMessage? e.message = some e.step := by
  obtain ⟨behind, hmessage⟩ := e.message_eq
  by_cases hsource : e.step = .readSource
  · cases e with
    | readSource p err =>
      obtain ⟨cs, hcs⟩ : ∃ cs, p.text.toList = '/' :: cs := by
        have habs := h p rfl rfl
        rw [Path.isAbsolute, decide_eq_true_eq] at habs
        exact List.head?_eq_some_iff.mp habs
      have hstart : Step.readSource.words.toList ++ ['/'] <+: (readSource p err).message.toList := by
        refine ⟨cs ++ (": " ++ err.message ++ behind).toList, ?_⟩
        rw [hmessage]
        simp only [String.toList_append, List.append_assoc]
        show _ = Step.readSource.words.toList ++ (p.text.toList ++ _)
        rw [hcs]
        rfl
      have hapart : ∀ t ∈ Step.readSource.earlier, ¬ t.words.toList <+: Step.readSource.words.toList ++ ['/'] ∧
          ¬ Step.readSource.words.toList ++ ['/'] <+: t.words.toList := by decide
      exact Step.ofMessage?_eq_some hstart (List.prefix_append _ _) hapart
    | _ => cases hsource
  · have hstart : e.step.words.toList <+: e.message.toList := by
      rw [hmessage]
      simp only [String.toList_append, List.append_assoc]
      exact List.prefix_append _ _
    exact Step.ofMessage?_eq_some hstart List.prefix_rfl (Step.words_apart hsource)

end CheckError

end TagLint.CommandLine

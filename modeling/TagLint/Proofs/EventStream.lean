import TagLint.Document
import TagLint.Proofs.JsonSpelling
import TagLint.Proofs.TagOverrides

/-!
# Event streams — a stream is read like any other list

The reader of event streams stops at the first token that no list of events goes on with.  That makes its errors come
early and changes nothing else.

* `Completes frames v j`: with the value `v` finished inside the open lists and objects `frames`, the text may hold `j`.
* `opens_of_run`: what the machine has read so far stands in the value that it ends with.
* `guardStream_eq_none`: so a token is let through whenever each item of the final list is an event.
* **`readStream_eq_ok_iff`**: a stream is a list as any reader finds it, item by item.
-/

namespace TagLint

namespace Json

variable {mode : Mode} {frames fs : List Frame} {t : Token} {p : Progress} {v j : Json}

/-! ## Open lists and objects -/

/-- A value is finished inside open lists and objects, which may then be completed to the value `j`. -/
def Completes : List Frame → Json → Json → Prop
  | [], v, j => v = j
  | .items done :: fs, v, j => ∃ more, Completes fs (.array (done.reverse ++ v :: more)) j
  | .member done key :: fs, v, j => ∃ more, Completes fs (.object (done.reverse ++ (key, v) :: more)) j
  | .members _ :: _, _, _ => False

/-- Open lists and objects may be completed to the value `j`. -/
def Opens : List Frame → Json → Prop
  | [], _ => True
  | .items done :: fs, j => ∃ more, Completes fs (.array (done.reverse ++ more)) j
  | .member done key :: fs, j => ∃ v more, Completes fs (.object (done.reverse ++ (key, v) :: more)) j
  | .members done :: fs, j => ∃ more, Completes fs (.object (done.reverse ++ more)) j

theorem opens_of_completes (h : Completes frames v j) : Opens frames j := by
  cases frames with
  | nil => trivial
  | cons f fs =>
    cases f with
    | items done =>
      obtain ⟨more, h⟩ := h
      exact ⟨v :: more, h⟩
    | member done key =>
      obtain ⟨more, h⟩ := h
      exact ⟨v, more, h⟩
    | members done => exact h.elim

/-- A value is due inside. -/
def Frame.Awaits : Frame → Prop
  | .items _ | .member _ _ => True
  | .members _ => False

/-- The innermost open list or object is one that the mode is about, and the others wait for it. -/
def Mode.Fits : Mode → List Frame → Prop
  | .value, fs => ∀ f ∈ fs, f.Awaits
  | .firstItem, .items _ :: fs | .nextItem, .items _ :: fs | .itemDone, .items _ :: fs => ∀ f ∈ fs, f.Awaits
  | .firstKey, .members _ :: fs | .nextKey, .members _ :: fs | .memberDone, .members _ :: fs => ∀ f ∈ fs, f.Awaits
  | .colon, .member _ _ :: fs => ∀ f ∈ fs, f.Awaits
  | _, _ => False

/-- What the machine has after a token fits together. -/
def Progress.Fits : Progress → Prop
  | .done _ => True
  | .more mode frames => mode.Fits frames

/-- What the machine has after a token may be completed to the value `j`. -/
def Progress.Leads : Progress → Json → Prop
  | .done v, j => v = j
  | .more _ frames, j => Opens frames j

theorem fits_finish (hfs : ∀ f ∈ fs, f.Awaits) (v : Json) : (finish v fs).Fits := by
  cases fs with
  | nil => trivial
  | cons f fs =>
    obtain ⟨hf, houter⟩ := List.forall_mem_cons.mp hfs
    cases f with
    | items done => exact houter
    | member done key => exact houter
    | members done => exact hf.elim

theorem completes_of_finish (hfs : ∀ f ∈ fs, f.Awaits) (h : (finish v fs).Leads j) : Completes fs v j := by
  cases fs with
  | nil => exact h
  | cons f fs =>
    cases f with
    | items done =>
      obtain ⟨more, h⟩ := h
      exact ⟨more, by simpa using h⟩
    | member done key =>
      obtain ⟨more, h⟩ := h
      exact ⟨more, by simpa using h⟩
    | members done => exact (List.forall_mem_cons.mp hfs).1.elim

/-! ## Steps -/

/-- What a step does in a state that fits together. -/
inductive Move (t : Token) : Mode → List Frame → Progress → Prop
  | value {mode : Mode} {frames : List Frame} {p : Progress}
      (hmode : mode = .value ∨ mode = .firstItem ∨ mode = .nextItem) (hframes : ∀ f ∈ frames, f.Awaits)
      (h : stepValue frames t = .ok p) : Move t mode frames p
  | closeList {mode : Mode} {done : List Json} {fs : List Frame} (ht : t.lexeme = .closeList)
      (hmode : mode = .firstItem ∨ mode = .itemDone) (hfs : ∀ f ∈ fs, f.Awaits) :
      Move t mode (.items done :: fs) (finish (.array done.reverse) fs)
  | nextItem {done : List Json} {fs : List Frame} (ht : t.lexeme = .comma) (hfs : ∀ f ∈ fs, f.Awaits) :
      Move t .itemDone (.items done :: fs) (.more .nextItem (.items done :: fs))
  | closeObject {mode : Mode} {done : List (String × Json)} {fs : List Frame} (ht : t.lexeme = .closeObject)
      (hmode : mode = .firstKey ∨ mode = .memberDone) (hfs : ∀ f ∈ fs, f.Awaits) :
      Move t mode (.members done :: fs) (finish (.object done.reverse) fs)
  | nextKey {done : List (String × Json)} {fs : List Frame} (ht : t.lexeme = .comma) (hfs : ∀ f ∈ fs, f.Awaits) :
      Move t .memberDone (.members done :: fs) (.more .nextKey (.members done :: fs))
  | key {mode : Mode} {done : List (String × Json)} {fs : List Frame} (key : String) (ht : t.lexeme = .string key)
      (hmode : mode = .firstKey ∨ mode = .nextKey) (hfs : ∀ f ∈ fs, f.Awaits) :
      Move t mode (.members done :: fs) (.more .colon (.member done key :: fs))
  | colon {done : List (String × Json)} {key : String} {fs : List Frame} (ht : t.lexeme = .colon)
      (hfs : ∀ f ∈ fs, f.Awaits) : Move t .colon (.member done key :: fs) (.more .value (.member done key :: fs))

theorem move_of_stepKey {done : List (String × Json)} (hfs : ∀ f ∈ fs, f.Awaits)
    (hmode : mode = .firstKey ∨ mode = .nextKey) (h : stepKey (.members done :: fs) t = .ok p) :
    Move t mode (.members done :: fs) p := by
  unfold stepKey at h
  split at h
  · rename_i key done' fs' ht hframes
    obtain ⟨rfl, rfl⟩ : done = done' ∧ fs = fs' := by simpa using hframes
    obtain rfl := Except.ok.inj h
    exact .key key ht hmode hfs
  · split_ifs at h
  · cases h

theorem move_of_step (fits : mode.Fits frames) (h : step mode frames t = .ok p) : Move t mode frames p := by
  have awaits {done : List Json} {fs : List Frame} (hfs : ∀ f ∈ fs, f.Awaits) : ∀ f ∈ .items done :: fs, f.Awaits :=
    List.forall_mem_cons.mpr ⟨trivial, hfs⟩
  unfold Mode.Fits at fits
  split at fits
  · exact .value (.inl rfl) fits h
  · rename_i done fs
    cases ht : t.lexeme with
    | closeList =>
      simp only [step, ht, Except.ok.injEq] at h
      exact h ▸ .closeList ht (.inl rfl) fits
    | endOfText => simp [step, ht] at h
    | _ => exact .value (.inr (.inl rfl)) (awaits fits) (by simpa only [step, ht] using h)
  · rename_i done fs
    cases ht : t.lexeme with
    | closeList => simp [step, ht] at h
    | _ => exact .value (.inr (.inr rfl)) (awaits fits) (by simpa only [step, ht] using h)
  · rename_i done fs
    cases ht : t.lexeme with
    | closeList =>
      simp only [step, ht, Except.ok.injEq] at h
      exact h ▸ .closeList ht (.inr rfl) fits
    | comma =>
      simp only [step, ht, Except.ok.injEq] at h
      exact h ▸ .nextItem ht fits
    | _ => simp [step, ht] at h
  · rename_i done fs
    cases ht : t.lexeme with
    | closeObject =>
      simp only [step, ht, Except.ok.injEq] at h
      exact h ▸ .closeObject ht (.inl rfl) fits
    | endOfText => simp [step, ht] at h
    | _ => exact move_of_stepKey fits (.inl rfl) (by simpa only [step, ht] using h)
  · rename_i done fs
    cases ht : t.lexeme with
    | closeObject | endOfText => simp [step, ht] at h
    | _ => exact move_of_stepKey fits (.inr rfl) (by simpa only [step, ht] using h)
  · rename_i done fs
    cases ht : t.lexeme with
    | closeObject =>
      simp only [step, ht, Except.ok.injEq] at h
      exact h ▸ .closeObject ht (.inr rfl) fits
    | comma =>
      simp only [step, ht, Except.ok.injEq] at h
      exact h ▸ .nextKey ht fits
    | _ => simp [step, ht] at h
  · rename_i done key fs
    cases ht : t.lexeme with
    | colon =>
      simp only [step, ht, Except.ok.injEq] at h
      exact h ▸ .colon ht fits
    | _ => simp [step, ht] at h
  · exact fits.elim

/-- A value may begin with this lexeme. -/
def Lexeme.Begins : Lexeme → Json → Prop
  | .openList, v => ∃ items, v = .array items
  | .openObject, v => ∃ members, v = .object members
  | .string s, v => v = .string s
  | .scalar j, v => v = j
  | _, _ => False

theorem openFrame_eq_ok {frame : Frame} (h : openFrame t mode frame frames = .ok p) :
    p = .more mode (frame :: frames) := by
  unfold openFrame at h
  split_ifs at h
  exact (Except.ok.inj h).symm

theorem fits_of_stepValue (hframes : ∀ f ∈ frames, f.Awaits) (h : stepValue frames t = .ok p) : p.Fits := by
  unfold stepValue at h
  split at h
  · exact openFrame_eq_ok h ▸ hframes
  · exact openFrame_eq_ok h ▸ hframes
  · exact Except.ok.inj h ▸ fits_finish hframes _
  · exact Except.ok.inj h ▸ fits_finish hframes _
  all_goals cases h

/-- The value that a token begins is finished inside what is open. -/
theorem exists_value_of_stepValue (hframes : ∀ f ∈ frames, f.Awaits) (h : stepValue frames t = .ok p)
    (leads : p.Leads j) : ∃ v, Completes frames v j ∧ t.lexeme.Begins v := by
  unfold stepValue at h
  split at h
  case h_1 ht =>
    obtain rfl := openFrame_eq_ok h
    obtain ⟨items, completes⟩ := leads
    exact ⟨_, completes, ht ▸ ⟨_, rfl⟩⟩
  case h_2 ht =>
    obtain rfl := openFrame_eq_ok h
    obtain ⟨members, completes⟩ := leads
    exact ⟨_, completes, ht ▸ ⟨_, rfl⟩⟩
  case h_3 s ht =>
    obtain rfl := Except.ok.inj h
    exact ⟨_, completes_of_finish hframes leads, ht ▸ rfl⟩
  case h_4 i ht =>
    obtain rfl := Except.ok.inj h
    exact ⟨_, completes_of_finish hframes leads, ht ▸ rfl⟩
  all_goals cases h

theorem Move.fits (move : Move t mode frames p) : p.Fits := by
  cases move with
  | value _ hframes h => exact fits_of_stepValue hframes h
  | closeList _ _ hfs | closeObject _ _ hfs => exact fits_finish hfs _
  | nextItem _ hfs | nextKey _ hfs | key _ _ _ hfs => exact hfs
  | colon _ hfs => exact List.forall_mem_cons.mpr ⟨trivial, hfs⟩

/-- A step takes nothing back. -/
theorem Move.opens (move : Move t mode frames p) (leads : p.Leads j) : Opens frames j := by
  cases move with
  | value _ hframes h =>
    obtain ⟨v, completes, -⟩ := exists_value_of_stepValue hframes h leads
    exact opens_of_completes completes
  | closeList _ _ hfs | closeObject _ _ hfs => exact ⟨[], by simpa using completes_of_finish hfs leads⟩
  | nextItem | nextKey | colon => exact leads
  | key key _ _ _ =>
    obtain ⟨v, more, completes⟩ := leads
    exact ⟨(key, v) :: more, completes⟩

/-- **What is read stays.**  What the machine has read so far stands in the value that it ends with. -/
theorem opens_of_run {guard : Guard} {toks rest : List Token} (fits : mode.Fits frames)
    (h : run guard mode frames toks = .ok (j, rest)) : Opens frames j := by
  induction toks generalizing mode frames with
  | nil => simp [run] at h
  | cons t toks ih =>
    obtain ⟨-, ⟨v, taken, same⟩ | ⟨m, fs, taken, h⟩⟩ := run_cons_eq_ok_iff.mp h
    · exact (move_of_step fits taken).opens (Prod.mk.inj same).1
    · have move := move_of_step fits taken
      exact move.opens (ih move.fits h)

/-- A guard only refuses. -/
theorem run_noGuard_of_run {guard : Guard} {toks : List Token} {r : Json × List Token}
    (h : run guard mode frames toks = .ok r) : run noGuard mode frames toks = .ok r := by
  induction toks generalizing mode frames with
  | nil => simp [run] at h
  | cons t toks ih =>
    obtain ⟨-, taken | ⟨m, fs, taken, h⟩⟩ := run_cons_eq_ok_iff.mp h
    · exact run_cons_eq_ok_iff.mpr ⟨rfl, .inl taken⟩
    · exact run_cons_eq_ok_iff.mpr ⟨rfl, .inr ⟨m, fs, taken, ih h⟩⟩

/-! ## Words and numbers -/

/-- A value of one token that is no text: it has no parts. -/
def Lexeme.IsPlain (l : Lexeme) : Prop :=
  ∀ j, l = .scalar j → j = .null ∨ (∃ b, j = .bool b) ∨ ∃ n, j = .number n

theorem isPlain_ofRead {α : Type} {cs : List Char} {k : α → Lexeme} (hk : ∀ a, (k a).IsPlain)
    (e : Except Fault (α × List Char)) : (Token.ofRead cs k e).lexeme.IsPlain := by
  cases e with
  | error f => rintro j ⟨⟩
  | ok r => exact hk r.1

theorem isPlain_word {cs word rest : List Char} {j : Json} (hj : j = .null ∨ ∃ b, j = .bool b) :
    (Token.ofRead cs .scalar ((readWord word rest).map fun r => (j, r))).lexeme.IsPlain := by
  cases readWord word rest with
  | error f => rintro i ⟨⟩
  | ok r =>
    rintro i ⟨⟩
    exact hj.imp_right .inl

theorem isPlain_nextToken (text : List Char) : (nextToken text).lexeme.IsPlain := by
  unfold nextToken
  generalize skipSpace text = cs
  dsimp only
  split
  case h_8 => exact isPlain_ofRead (by rintro s j ⟨⟩) _
  case h_9 | h_10 => exact isPlain_word (.inr ⟨_, rfl⟩)
  case h_11 => exact isPlain_word (.inl rfl)
  case h_12 =>
    split_ifs
    · exact isPlain_ofRead (by rintro n j ⟨⟩; exact .inr (.inr ⟨n, rfl⟩)) _
    · rintro j ⟨⟩
  all_goals rintro j ⟨⟩

theorem isPlain_of_mem_tokensUpTo {count : ℕ} {text : List Char} : ∀ t ∈ tokensUpTo count text, t.lexeme.IsPlain := by
  induction count generalizing text with
  | zero => simp [tokensUpTo]
  | succ count ih =>
    rw [tokensUpTo]
    split_ifs
    · exact List.forall_mem_singleton.mpr (isPlain_nextToken text)
    · exact List.forall_mem_cons.mpr ⟨isPlain_nextToken text, ih⟩

end Json

namespace Event

open Json

variable {mode : Mode} {frames : List Frame} {t : Token} {p : Progress} {items : List Json}

/-! ## The guard of streams -/

/-- An object that is an event names its variant once. -/
theorem exists_kind_of_ofJson {members : List (String × Json)} {e : Event} (h : ofJson (.object members) = .ok e) :
    ∃ m kind, members.filter isKind = [m] ∧ asKind m.2 = .ok kind := by
  unfold ofJson at h
  split at h
  · rename_i same
    obtain rfl := Json.object.inj same
    split at h
    · cases h
    · rename_i m hm
      obtain ⟨kind, hkind, -⟩ := bind_eq_ok_iff.mp h
      exact ⟨m, kind, hm, hkind⟩
    · cases h
  all_goals simp_all

theorem exists_kind_of_ofJson_array {items : List Json} {e : Event} (h : ofJson (.array items) = .ok e) :
    ∃ k rest kind, items = k :: rest ∧ asKind k = .ok kind := by
  cases items with
  | nil => cases h
  | cons k rest =>
    obtain ⟨kind, hkind, -⟩ := bind_eq_ok_iff.mp h
    exact ⟨k, rest, kind, rfl, hkind⟩

/-- The token of a value that names a variant. -/
theorem guardKind_eq_none {v : Json} {kind : Kind} (plain : t.lexeme.IsPlain) (begins : t.lexeme.Begins v)
    (h : asKind v = .ok kind) : guardKind t = none := by
  unfold asKind at h
  split at h
  · rename_i s
    cases ht : t.lexeme with
    | string s' =>
      rw [ht] at begins
      obtain rfl : s = s' := Json.string.inj begins
      cases hk : Kind.ofName? s with
      | none => simp [hk] at h
      | some kind => simp [guardKind, ht, hk]
    | scalar j =>
      rw [ht] at begins
      obtain rfl : Json.string s = j := begins
      simp [Lexeme.IsPlain, ht] at plain
    | _ => simp [ht, Lexeme.Begins] at begins
  · cases h

/-- What is finished inside the list of the text is one of its items. -/
theorem mem_of_completes {done : List Json} {v : Json} (h : Completes [.items done] v (.array items)) : v ∈ items := by
  obtain ⟨more, h⟩ := h
  rw [← Json.array.inj h]
  exact List.mem_append_right _ List.mem_cons_self

/-- An item that begins like a word or a text is no event. -/
theorem wrongTypeOfEvent_eq_none {v : Json} {e : Event} (plain : t.lexeme.IsPlain) (begins : t.lexeme.Begins v)
    (h : ofJson v = .ok e) : guardStream.wrongTypeOfEvent t = none := by
  cases ht : t.lexeme with
  | openList | openObject => simp [guardStream.wrongTypeOfEvent, ht]
  | string s =>
    rw [ht] at begins
    obtain rfl : v = .string s := begins
    cases h
  | scalar j =>
    rw [ht] at begins
    obtain rfl : v = j := begins
    rcases plain v ht with rfl | ⟨b, rfl⟩ | ⟨n, rfl⟩ <;> cases h
  | _ => simp [ht, Lexeme.Begins] at begins

/-- The first token of a text that holds a list. -/
theorem guardList_eq_none (move : Move t mode [] p) (leads : p.Leads (.array items)) (plain : t.lexeme.IsPlain) :
    guardList mode [] t = none := by
  cases move with
  | value _ hawaits h =>
    obtain ⟨v, rfl, begins⟩ := exists_value_of_stepValue hawaits h leads
    cases ht : t.lexeme with
    | openList => simp [guardList, ht]
    | scalar j =>
      rw [ht] at begins
      obtain rfl : Json.array items = j := begins
      simp [Lexeme.IsPlain, ht] at plain
    | _ => simp [ht, Lexeme.Begins] at begins

section

variable (move : Move t mode frames p) (leads : p.Leads (.array items)) (plain : t.lexeme.IsPlain)
  (accepted : ∀ item ∈ items, ∃ e, ofJson item = .ok e)

include move leads accepted

/-- The item that was read last. -/
theorem guardStream_latest {done : List Json} (hframes : frames = [.items done]) : guardLatest done t = none := by
  subst hframes
  obtain ⟨more, same⟩ := move.opens leads
  obtain rfl := Json.array.inj same
  cases done with
  | nil => rfl
  | cons j done =>
    obtain ⟨e, he⟩ := accepted j (by simp)
    simp [guardLatest, he]

/-- A member of an event that is written as an object. -/
theorem guardStream_member {done : List (String × Json)} {outer : List Json}
    (hframes : frames = [.members done, .items outer]) :
    (t.lexeme = .closeObject → done.any isKind) ∧ (t.lexeme = .string "kind" → ¬ done.any isKind) := by
  subst hframes
  cases move with
  | value _ hawaits => exact (hawaits _ List.mem_cons_self).elim
  | closeObject ht _ hfs =>
    obtain ⟨e, he⟩ := accepted _ (mem_of_completes (completes_of_finish hfs leads))
    obtain ⟨m, kind, hm, -⟩ := exists_kind_of_ofJson he
    have hmem : m ∈ done.reverse.filter isKind := hm ▸ List.mem_singleton_self m
    obtain ⟨hmem, hkind⟩ := List.mem_filter.mp hmem
    exact ⟨fun _ => List.any_eq_true.mpr ⟨m, List.mem_reverse.mp hmem, hkind⟩, by simp [ht]⟩
  | nextKey ht => simp [ht]
  | key key ht _ hfs =>
    refine ⟨by simp [ht], fun hk hany => ?_⟩
    obtain rfl : key = "kind" := Lexeme.string.inj (ht.symm.trans hk)
    obtain ⟨v, more, completes⟩ := leads
    obtain ⟨e, he⟩ := accepted _ (mem_of_completes completes)
    obtain ⟨m, kind, hm, -⟩ := exists_kind_of_ofJson he
    obtain ⟨m', hm', hkind⟩ := List.any_eq_true.mp hany
    -- the variant would be named twice
    have hlen := congrArg List.length hm
    have hpos : 0 < (done.reverse.filter isKind).length :=
      List.length_pos_of_mem (List.mem_filter.mpr ⟨List.mem_reverse.mpr hm', hkind⟩)
    have hnamed : isKind ("kind", v) = true := rfl
    rw [List.filter_append, List.length_append, List.filter_cons_of_pos hnamed, List.length_cons,
      List.length_singleton] at hlen
    omega

include plain

/-- An item of the list. -/
theorem guardStream_item {done : List Json} (hframes : frames = [.items done]) (hmode : mode ≠ .itemDone) :
    guardStream.wrongTypeOfEvent t = none := by
  subst hframes
  cases move with
  | value _ hawaits h =>
    obtain ⟨v, completes, begins⟩ := exists_value_of_stepValue hawaits h leads
    obtain ⟨e, he⟩ := accepted v (mem_of_completes completes)
    exact wrongTypeOfEvent_eq_none plain begins he
  | closeList ht => simp [guardStream.wrongTypeOfEvent, wrongType, ht]
  | nextItem => exact absurd rfl hmode

/-- The first item of an event that is written as a list. -/
theorem guardStream_firstItem {done : List Json} (hframes : frames = [.items [], .items done]) :
    t.lexeme ≠ .closeList ∧ guardKind t = none := by
  subst hframes
  cases move with
  | value _ hawaits h =>
    obtain ⟨v, ⟨more, completes⟩, begins⟩ := exists_value_of_stepValue hawaits h leads
    obtain ⟨e, he⟩ := accepted _ (mem_of_completes completes)
    obtain ⟨k, rest, kind, hk, hkind⟩ := exists_kind_of_ofJson_array he
    obtain ⟨rfl, -⟩ := List.cons.inj hk
    refine ⟨fun ht => ?_, guardKind_eq_none plain begins hkind⟩
    simp [ht, Lexeme.Begins] at begins
  | closeList _ _ hfs =>
    obtain ⟨e, he⟩ := accepted _ (mem_of_completes (completes_of_finish hfs leads))
    cases he
  | nextItem ht => exact ⟨by simp [ht], by simp [guardKind, wrongType, ht]⟩

/-- The value that names the variant of an event. -/
theorem guardStream_kind {done : List (String × Json)} {outer : List Json}
    (hframes : frames = [.member done "kind", .items outer]) (hmode : mode = .value) : guardKind t = none := by
  subst hframes hmode
  cases move with
  | value _ hawaits h =>
    obtain ⟨v, ⟨more, completes⟩, begins⟩ := exists_value_of_stepValue hawaits h leads
    obtain ⟨e, he⟩ := accepted _ (mem_of_completes completes)
    obtain ⟨m, kind, hm, hkind⟩ := exists_kind_of_ofJson he
    have hmem : ("kind", v) ∈ (done.reverse ++ ("kind", v) :: more).filter isKind := by simp [isKind]
    obtain rfl := List.mem_singleton.mp (hm ▸ hmem)
    exact guardKind_eq_none plain begins hkind

/-- The reader of streams refuses no token of a list of events. -/
theorem guardStream_eq_none : guardStream mode frames t = none := by
  unfold guardStream
  split
  · exact guardList_eq_none move leads plain
  · exact guardStream_latest move leads accepted rfl
  · rename_i hmode
    exact guardStream_item move leads plain accepted rfl fun same => by simp_all
  · obtain ⟨hclose, hkind⟩ := guardStream_firstItem move leads plain accepted rfl
    split
    · rename_i ht
      exact absurd ht hclose
    · exact hkind
  · obtain ⟨hclose, hkey⟩ := guardStream_member move leads accepted rfl
    split
    · rename_i ht
      exact if_pos (hclose ht)
    · rename_i ht
      exact if_pos (hclose ht)
    · rename_i ht
      exact if_neg (hkey ht)
    · rename_i ht
      exact if_neg (hkey ht)
    · rfl
  · exact guardStream_kind move leads plain accepted rfl rfl
  · rfl

end

/-- A list of events is read alike with the guard and without. -/
theorem run_guardStream {toks rest : List Token} (fits : mode.Fits frames) (plain : ∀ t ∈ toks, t.lexeme.IsPlain)
    (accepted : ∀ item ∈ items, ∃ e, ofJson item = .ok e)
    (h : run noGuard mode frames toks = .ok (.array items, rest)) :
    run guardStream mode frames toks = .ok (.array items, rest) := by
  induction toks generalizing mode frames with
  | nil => simp [run] at h
  | cons t toks ih =>
    obtain ⟨ht, htoks⟩ := List.forall_mem_cons.mp plain
    obtain ⟨-, ⟨v, taken, same⟩ | ⟨m, fs, taken, h⟩⟩ := run_cons_eq_ok_iff.mp h
    · have move := move_of_step fits taken
      have leads : (Progress.done v).Leads (.array items) := (Prod.mk.inj same).1
      exact run_cons_eq_ok_iff.mpr ⟨guardStream_eq_none move leads ht accepted, .inl ⟨v, taken, same⟩⟩
    · have move := move_of_step fits taken
      have leads : (Progress.more m fs).Leads (.array items) := opens_of_run move.fits h
      exact run_cons_eq_ok_iff.mpr ⟨guardStream_eq_none move leads ht accepted,
        .inr ⟨m, fs, taken, ih move.fits htoks h⟩⟩

/-! ## Streams -/

/-- Values that stand for events, one for each. -/
abbrev Reads (items : List Json) (events : List Event) : Prop := List.Forall₂ (fun j e => ofJson j = .ok e) items events

theorem readWith_guardStream_iff {text : List Char} (accepted : ∀ item ∈ items, ∃ e, ofJson item = .ok e) :
    readWith guardStream text = .ok (.array items) ↔ read text = .ok (.array items) := by
  show _ ↔ readWith noGuard text = _
  rw [readWith_eq_ok_iff, readWith_eq_ok_iff]
  constructor
  · rintro ⟨rest, h, ended⟩
    exact ⟨rest, run_noGuard_of_run h, ended⟩
  · rintro ⟨rest, h, ended⟩
    have fits : Mode.value.Fits [] := nofun
    exact ⟨rest, run_guardStream fits isPlain_of_mem_tokensUpTo accepted h, ended⟩

theorem exists_of_forall₂ {α β : Type} {R : α → β → Prop} {as : List α} {bs : List β} (h : List.Forall₂ R as bs) :
    ∀ a ∈ as, ∃ b, R a b := by
  induction h with
  | nil => nofun
  | cons head _ ih => exact List.forall_mem_cons.mpr ⟨⟨_, head⟩, ih⟩

/-- **Streams are lists.**  A text holds a stream of events exactly if a strict reader finds a list in it whose items
all stand for events; the stream is these events in order. -/
theorem readStream_eq_ok_iff {text : List Char} {events : List Event} :
    readStream text = .ok events ↔ ∃ items, read text = .ok (.array items) ∧ Reads items events := by
  have hread : ∀ {items : List Json}, Reads items events →
      (readWith guardStream text = .ok (.array items) ↔ read text = .ok (.array items)) :=
    fun h => readWith_guardStream_iff (exists_of_forall₂ h)
  unfold readStream
  rw [bind_eq_ok_iff]
  constructor
  · rintro ⟨j, hj, h⟩
    cases j with
    | array items =>
      have hitems : Reads items events := mapM_eq_ok_iff.mp (mapError_eq_ok_iff.mp h)
      exact ⟨items, (hread hitems).mp hj, hitems⟩
    | _ => cases h
  · rintro ⟨items, hj, hitems⟩
    exact ⟨.array items, (hread hitems).mpr hj, mapError_eq_ok_iff.mpr (mapM_eq_ok_iff.mpr hitems)⟩

end Event

/-- A document is read from the text of its events exactly if that text holds a list of events. -/
theorem Document.ofEventsText_eq_ok_iff {p : Path} {text t : String} {d : Document} :
    Document.ofEventsText p text t = .ok d ↔ ∃ items events, Json.parse t = .ok (.array items) ∧
      Event.Reads items events ∧ d = ⟨p, text, events, 0⟩ := by
  have hread : ∀ events, Event.parseStream t = .ok events ↔
      ∃ items, Json.parse t = .ok (.array items) ∧ Event.Reads items events := fun events => by
    rw [Event.parseStream, mapError_eq_ok_iff, Event.readStream_eq_ok_iff]
    simp only [Json.parse, mapError_eq_ok_iff]
  rw [ofEventsText, map_eq_ok_iff]
  simp only [hread]
  constructor
  · rintro ⟨events, ⟨items, hitems, hevents⟩, rfl⟩
    exact ⟨items, events, hitems, hevents, rfl⟩
  · rintro ⟨items, events, hitems, hevents, rfl⟩
    exact ⟨events, ⟨items, hitems, hevents⟩, rfl⟩

end TagLint

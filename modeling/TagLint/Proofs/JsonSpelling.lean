import TagLint.Json.Reader
import TagLint.Proofs.TokenText

/-!
# JSON spelling — the lexemes that a text spells

* `Spells t ls`: the text `t` is made of white space and of the texts of the lexemes `ls`, and after a number or
  a word comes a comma, a bracket or the end.
* **`lexemes_of_spells`**: such a text is read as these lexemes.
* **`exists_spells`**: every text that holds a value spells some lexemes.
* **`readWith_of_spells`**: what is read depends on the lexemes alone.
-/

namespace TagLint.Json

/-- What follows a value in a list or object, or at the end of the text. -/
def EndsValue (ls : List Lexeme) : Prop := ∀ l ∈ ls.head?, l = .comma ∨ l = .closeList ∨ l = .closeObject

/-- A text that spells lexemes. -/
inductive Spells : List Char → List Lexeme → Prop
  | nil : Spells [] []
  | space {c : Char} {t : List Char} {ls : List Lexeme} : isSpace c → Spells t ls → Spells (c :: t) ls
  | token {x t : List Char} {l : Lexeme} {ls : List Lexeme} :
    Spelling x l → (l.isScalar → EndsValue ls) → Spells t ls → Spells (x ++ t) (l :: ls)

variable {t t' x : List Char} {l : Lexeme} {ls : List Lexeme}

/-! ## White space -/

theorem Spells.append_space {w : List Char} (hw : ∀ c ∈ w, isSpace c) (h : Spells t ls) : Spells (w ++ t) ls := by
  induction w with
  | nil => exact h
  | cons c w ih => exact .space (hw c (by simp)) (ih fun d hd => hw d (by simp [hd]))

theorem Spells.of_skipSpace (h : Spells (skipSpace t) ls) : Spells t ls := by
  rw [← List.takeWhile_append_dropWhile (p := isSpace) (l := t)]
  exact h.append_space fun c hc => List.mem_takeWhile_imp hc

theorem Spells.tail_of_space {c : Char} (hc : isSpace c) (h : Spells (c :: t) ls) : Spells t ls := by
  generalize same : c :: t = u at h
  cases h with
  | nil => simp at same
  | space _ h => rwa [(List.cons.inj same).2]
  | token spelled _ h =>
    obtain ⟨d, y, rfl, hd⟩ := spelled.shape.exists_head
    rw [(List.cons.inj same).1] at hc
    simp [hc] at hd

theorem Spells.of_append_space {w : List Char} (hw : ∀ c ∈ w, isSpace c) (h : Spells (w ++ t) ls) : Spells t ls := by
  induction w with
  | nil => exact h
  | cons c w ih => exact ih (fun d hd => hw d (by simp [hd])) (h.tail_of_space (hw c (by simp)))

/-! ## From spelling to lexemes -/

/-- A number ends before the text of what may follow it. -/
theorem Spells.endsNumber (h : Spells t ls) (ends : EndsValue ls) : EndsNumber t := by
  cases h with
  | nil => exact endsNumber_nil
  | @space c t ls hc h =>
    intro d hd
    obtain rfl : c = d := by simpa using hd
    by_contra number
    have plain := isPlain_iff.mp (isPlain_of_class (p := isNumberChar) (Bool.not_eq_false _ ▸ number) (by decide))
    simp [hc] at plain
  | @token x t l ls spelled _ h =>
    obtain ⟨c, y, rfl, -⟩ := spelled.shape.exists_head
    intro d hd
    obtain rfl : c = d := by simpa using hd
    by_contra number
    rw [Bool.not_eq_false] at number
    have reads := spelled.reads [] fun _ => endsNumber_nil
    have other := lexeme_of_isNumberChar number (y ++ [])
    rw [← List.cons_append, reads] at other
    rcases ends l rfl with rfl | rfl | rfl
    · exact other.1.1 rfl
    · exact other.1.2 rfl
    · exact other.2 rfl

/-- The first token of a text that spells a lexeme first. -/
theorem Spelling.nextToken_append (spelled : Spelling x l) (ends : l.isScalar → EndsValue ls) (h : Spells t ls) :
    nextToken (x ++ t) = ⟨l, x ++ t, t⟩ :=
  spelled.reads t fun number => h.endsNumber (ends (Lexeme.isScalar_of_isNumber number))

theorem isLast_of_isProper {t : Token} (h : t.lexeme.isProper) : t.isLast = false := by
  unfold Token.isLast
  split <;> simp_all [Lexeme.isProper]

theorem Spells.map_lexeme_tokensUpTo (h : Spells t ls) {count : Nat} (fuel : t.length < count) :
    (tokensUpTo count t).map Token.lexeme = ls ++ [.endOfText] := by
  induction h generalizing count with
  | nil =>
    obtain ⟨count, rfl⟩ := Nat.exists_eq_add_of_lt fuel
    rfl
  | @space c t ls hc h ih =>
    have next : nextToken (c :: t) = nextToken t := by simp [nextToken, skipSpace, hc]
    obtain ⟨count, rfl⟩ := Nat.exists_eq_add_of_lt fuel
    rw [← ih (by simp; omega : t.length < (c :: t).length + count + 1)]
    simp only [tokensUpTo, next]
  | @token x t l ls spelled ends h ih =>
    obtain ⟨c, y, rfl, -⟩ := spelled.shape.exists_head
    obtain ⟨count, rfl⟩ := Nat.exists_eq_add_of_lt fuel
    have last : Token.isLast ⟨l, c :: y ++ t, t⟩ = false := isLast_of_isProper spelled.proper
    simp only [tokensUpTo, spelled.nextToken_append ends h, last, Bool.false_eq_true, if_false, List.map_cons]
    rw [ih (by simp; omega), List.cons_append]

/-- A text is read as the lexemes that it spells. -/
theorem lexemes_of_spells (h : Spells t ls) : (tokens t).map Token.lexeme = ls ++ [.endOfText] :=
  h.map_lexeme_tokensUpTo (Nat.lt_succ_self _)

/-- Inversion at a text that starts with one of its tokens. -/
theorem Spells.exists_of_token {c : Char} (next : nextToken (c :: x ++ t) = ⟨l, c :: x ++ t, t⟩)
    (h : Spells (c :: x ++ t) ls) : Spelling (c :: x) l ∧ ∃ ls', ls = l :: ls' ∧ (l.isScalar → EndsValue ls') ∧
      Spells t ls' := by
  have first : isSpace c = false := by
    by_contra space
    have start := start_nextToken (c :: x ++ t)
    rw [next, List.cons_append, skipSpace, List.dropWhile_cons_of_pos (by simpa using space)] at start
    have shorter := (List.dropWhile_suffix isSpace (l := x ++ t)).length_le
    rw [← start, List.length_cons] at shorter
    omega
  generalize same : c :: x ++ t = u at h next
  cases h with
  | nil => simp at same
  | space hc _ =>
    rw [← (List.cons.inj same).1] at hc
    simp [first] at hc
  | @token y u k ls spelled ends rest =>
    obtain ⟨rfl, -, rfl⟩ := Token.mk.inj ((spelled.nextToken_append ends rest).symm.trans next)
    obtain rfl := List.append_cancel_right same
    exact ⟨spelled, ls, rfl, ends, rest⟩

/-! ## From reading to spelling -/

/-- Right after a value in a list or object. -/
def Mode.AfterValue (mode : Mode) : Prop := mode = .itemDone ∨ mode = .memberDone

section Step

variable {mode : Mode} {frames : List Frame} {tok : Token} {p : Progress}

theorem isProper_of_step (h : step mode frames tok = .ok p) : tok.lexeme.isProper := by
  by_contra improper
  have kinds : (∃ f, tok.lexeme = .malformed f) ∨ tok.lexeme = .stray ∨ tok.lexeme = .endOfText := by
    cases hl : tok.lexeme <;> simp_all [Lexeme.isProper]
  have value : ∀ p, stepValue frames tok ≠ .ok p := fun p => by
    rcases kinds with ⟨f, hl⟩ | hl | hl <;> simp [stepValue, hl]
  have key : ∀ p, stepKey frames tok ≠ .ok p := fun p => by
    rcases kinds with ⟨f, hl⟩ | hl | hl <;> simp only [stepKey, hl] <;> (try split_ifs) <;> simp
  rcases kinds with ⟨f, hl⟩ | hl | hl <;> cases mode <;> simp [step, hl, value, key] at h

theorem step_afterValue (after : mode.AfterValue) (h : step mode frames tok = .ok p) :
    tok.lexeme = .comma ∨ tok.lexeme = .closeList ∨ tok.lexeme = .closeObject := by
  rcases after with rfl | rfl <;> cases hl : tok.lexeme <;> simp_all [step]

theorem finish_afterValue (j : Json) (frames : List Frame) :
    (∃ v, finish j frames = .done v) ∨ ∃ m fs, finish j frames = .more m fs ∧ m.AfterValue := by
  unfold finish
  split
  · exact .inr ⟨_, _, rfl, .inl rfl⟩
  · exact .inr ⟨_, _, rfl, .inr rfl⟩
  · exact .inl ⟨_, rfl⟩
  · exact .inl ⟨_, rfl⟩

theorem step_scalar (scalar : tok.lexeme.isScalar) (h : step mode frames tok = .ok p) :
    (∃ v, p = .done v) ∨ ∃ m fs, p = .more m fs ∧ m.AfterValue := by
  obtain ⟨j, hl⟩ : ∃ j, tok.lexeme = .scalar j := by
    unfold Lexeme.isScalar at scalar
    split at scalar
    · exact ⟨_, ‹_›⟩
    · simp at scalar
  obtain rfl : finish j frames = p := by
    cases mode <;> simp_all [step, stepValue, stepKey]
  exact finish_afterValue _ _

end Step

theorem run_cons_eq_ok_iff {guard : Guard} {mode : Mode} {frames : List Frame} {tok : Token} {toks : List Token}
    {r : Json × List Token} : run guard mode frames (tok :: toks) = .ok r ↔ guard mode frames tok = none ∧
      ((∃ v, step mode frames tok = .ok (.done v) ∧ (v, toks) = r) ∨
        ∃ m fs, step mode frames tok = .ok (.more m fs) ∧ run guard m fs toks = .ok r) := by
  rw [run]
  cases guard mode frames tok with
  | some f => simp
  | none =>
    cases step mode frames tok with
    | error f => simp
    | ok p => cases p <;> simp [and_assoc]

/-- The text of a token that is taken, and a shorter text after it. -/
theorem exists_spelling_of_step {tok : Token} {mode : Mode} {frames : List Frame} {p : Progress}
    (next : nextToken t = tok) (h : step mode frames tok = .ok p) :
    ∃ x, skipSpace t = x ++ tok.stop ∧ Spelling x tok.lexeme ∧ tok.stop.length < t.length := by
  obtain ⟨x, same, spelled⟩ := exists_spelling next (isProper_of_step h)
  refine ⟨x, same, spelled, ?_⟩
  obtain ⟨c, y, rfl, -⟩ := spelled.shape.exists_head
  have shorter : (skipSpace t).length ≤ t.length := (List.dropWhile_suffix isSpace).length_le
  rw [same] at shorter
  simp only [List.cons_append, List.length_cons, List.length_append] at shorter
  omega

/-- A token that is taken is spelled before what is spelled after it. -/
theorem spells_of_step {tok : Token} {mode : Mode} {frames : List Frame} {p : Progress} (next : nextToken t = tok)
    (taken : step mode frames tok = .ok p) (ends : tok.lexeme.isScalar → EndsValue ls) (rest : Spells tok.stop ls) :
    Spells t (tok.lexeme :: ls) ∧ (mode.AfterValue → EndsValue (tok.lexeme :: ls)) := by
  obtain ⟨x, hx, spelled, -⟩ := exists_spelling_of_step next taken
  refine ⟨.of_skipSpace ?_, fun after => ?_⟩
  · rw [hx]
    exact .token spelled ends rest
  · simpa [EndsValue] using step_afterValue after taken

theorem endOnly_cons_eq_ok_iff {tok : Token} {toks : List Token} :
    endOnly (tok :: toks) = .ok () ↔ tok.lexeme = .endOfText := by
  cases hl : tok.lexeme <;> simp [endOnly, hl]

theorem readWith_eq_ok_iff {guard : Guard} {j : Json} : readWith guard t = .ok j ↔
    ∃ rest, run guard .value [] (tokens t) = .ok (j, rest) ∧ endOnly rest = .ok () := by
  simp only [readWith, bind, Except.bind, pure, Except.pure]
  cases run guard .value [] (tokens t) with
  | error f => simp
  | ok p =>
    obtain ⟨v, rest⟩ := p
    cases ended : endOnly rest <;> simp [ended, and_assoc]

/-- Nothing but white space is left where a text may end. -/
theorem spells_nil_of_endOnly {count : Nat} (fuel : t.length < count) (h : endOnly (tokensUpTo count t) = .ok ()) :
    Spells t [] := by
  obtain ⟨count, rfl⟩ := Nat.exists_eq_add_of_lt fuel
  have first : (nextToken t).lexeme = .endOfText := by
    rw [tokensUpTo] at h
    split at h <;> exact endOnly_cons_eq_ok_iff.mp h
  exact .of_skipSpace (skipSpace_eq_nil first ▸ .nil)

/-- What the machine takes from a state on is spelled by the text, and right after a value it is no other value. -/
theorem exists_spells_of_run {guard : Guard} {mode : Mode} {frames : List Frame} {count : Nat} {j : Json}
    {rest : List Token} (fuel : t.length < count) (h : run guard mode frames (tokensUpTo count t) = .ok (j, rest))
    (ended : endOnly rest = .ok ()) : ∃ ls, Spells t ls ∧ (mode.AfterValue → EndsValue ls) := by
  induction count generalizing t mode frames with
  | zero => omega
  | succ count ih =>
    obtain ⟨tok, next⟩ : ∃ tok, nextToken t = tok := ⟨_, rfl⟩
    obtain ⟨toks, cut, later⟩ : ∃ toks, tokensUpTo (count + 1) t = tok :: toks ∧
        (tok.isLast = false → toks = tokensUpTo count tok.stop) := by
      rw [tokensUpTo, next]
      split
      · exact ⟨[], rfl, by simp_all⟩
      · exact ⟨_, rfl, fun _ => rfl⟩
    rw [cut, run_cons_eq_ok_iff] at h
    obtain ⟨-, ⟨v, taken, same⟩ | ⟨m, fs, taken, h⟩⟩ := h
    · -- the value is complete
      obtain ⟨x, -, spelled, shorter⟩ := exists_spelling_of_step next taken
      obtain ⟨rfl, rfl⟩ := Prod.mk.inj same
      rw [later (isLast_of_isProper spelled.proper)] at ended
      have blank : Spells tok.stop [] := spells_nil_of_endOnly (by omega) ended
      exact ⟨[tok.lexeme], spells_of_step next taken (fun _ => by simp [EndsValue]) blank⟩
    · obtain ⟨x, -, spelled, shorter⟩ := exists_spelling_of_step next taken
      rw [later (isLast_of_isProper spelled.proper)] at h
      obtain ⟨ls, rest, ends⟩ := ih (by omega) h
      refine ⟨tok.lexeme :: ls, spells_of_step next taken (fun scalar => ?_) rest⟩
      obtain ⟨v, same⟩ | ⟨m', fs', same, after⟩ := step_scalar scalar taken
      · cases same
      · cases same
        exact ends after

/-- Every text that holds a value spells some lexemes. -/
theorem exists_spells {guard : Guard} {j : Json} (h : readWith guard t = .ok j) : ∃ ls, Spells t ls := by
  obtain ⟨rest, read, ended⟩ := readWith_eq_ok_iff.mp h
  obtain ⟨ls, spelled, -⟩ := exists_spells_of_run (Nat.lt_succ_self _) read ended
  exact ⟨ls, spelled⟩

/-! ## What is read depends on the lexemes alone -/

/-- A guard that looks at nothing but the lexeme. -/
def Guard.OfLexeme (guard : Guard) : Prop :=
  ∀ ⦃mode frames⦄ ⦃tok tok' : Token⦄, tok.lexeme = tok'.lexeme → guard mode frames tok = none →
    guard mode frames tok' = none

theorem ofLexeme_guardObject : guardObject.OfLexeme := fun mode frames tok tok' same h => by
  cases frames with
  | nil => cases hl : tok.lexeme <;> simp_all [guardObject, wrongType, ← same]
  | cons => rfl

theorem openFrame_congr {mode : Mode} {frame : Frame} {frames : List Frame} {tok tok' : Token} {p : Progress}
    (h : openFrame tok mode frame frames = .ok p) : openFrame tok' mode frame frames = .ok p := by
  unfold openFrame at h ⊢
  split_ifs at h ⊢
  exact h

theorem step_congr {mode : Mode} {frames : List Frame} {tok tok' : Token} {p : Progress}
    (same : tok.lexeme = tok'.lexeme) (h : step mode frames tok = .ok p) : step mode frames tok' = .ok p := by
  have value (h : stepValue frames tok = .ok p) : stepValue frames tok' = .ok p := by
    unfold stepValue at h ⊢
    rw [← same]
    split at h
    case h_1 | h_2 => exact openFrame_congr h
    all_goals first | exact h | simp at h
  have key (h : stepKey frames tok = .ok p) : stepKey frames tok' = .ok p := by
    unfold stepKey at h ⊢
    rw [← same]
    split at h
    case h_1 => exact h
    case h_2 => split_ifs at h
    case h_3 => simp at h
  unfold step at h ⊢
  rw [← same]
  split at h
  all_goals (try split at h)
  all_goals first | exact h | exact value h | exact key h | simp at h

theorem run_congr {guard : Guard} (lexical : guard.OfLexeme) {mode : Mode} {frames : List Frame}
    {toks toks' rest : List Token} {j : Json} (same : toks.map Token.lexeme = toks'.map Token.lexeme)
    (h : run guard mode frames toks = .ok (j, rest)) :
    ∃ rest', run guard mode frames toks' = .ok (j, rest') ∧ rest.map Token.lexeme = rest'.map Token.lexeme := by
  induction toks generalizing toks' mode frames with
  | nil => simp [run] at h
  | cons tok toks ih =>
    obtain ⟨tok', toks', rfl, first, later⟩ := List.map_eq_cons_iff.mp same.symm
    obtain ⟨allowed, ⟨v, taken, ended⟩ | ⟨m, fs, taken, h⟩⟩ := run_cons_eq_ok_iff.mp h
    · obtain ⟨rfl, rfl⟩ := Prod.mk.inj ended
      exact ⟨toks', run_cons_eq_ok_iff.mpr ⟨lexical first.symm allowed, .inl ⟨v, step_congr first.symm taken, rfl⟩⟩,
        later.symm⟩
    · obtain ⟨rest', h', ended⟩ := ih later.symm h
      exact ⟨rest', run_cons_eq_ok_iff.mpr ⟨lexical first.symm allowed,
        .inr ⟨m, fs, step_congr first.symm taken, h'⟩⟩, ended⟩

theorem endOnly_congr {toks toks' : List Token} (same : toks.map Token.lexeme = toks'.map Token.lexeme)
    (h : endOnly toks = .ok ()) : endOnly toks' = .ok () := by
  cases toks with
  | nil => rw [List.map_eq_nil_iff.mp same.symm]; rfl
  | cons tok toks =>
    obtain ⟨tok', toks', rfl, first, -⟩ := List.map_eq_cons_iff.mp same.symm
    rw [endOnly_cons_eq_ok_iff] at h ⊢
    exact first.trans h

/-- Two texts that spell the same lexemes hold the same value. -/
theorem readWith_of_spells {guard : Guard} (lexical : guard.OfLexeme) {j : Json} (ht : Spells t ls)
    (ht' : Spells t' ls) (h : readWith guard t = .ok j) : readWith guard t' = .ok j := by
  obtain ⟨rest, read, ended⟩ := readWith_eq_ok_iff.mp h
  have same := (lexemes_of_spells ht).trans (lexemes_of_spells ht').symm
  obtain ⟨rest', read', same⟩ := run_congr lexical same read
  exact readWith_eq_ok_iff.mpr ⟨rest', read', endOnly_congr same ended⟩

end TagLint.Json

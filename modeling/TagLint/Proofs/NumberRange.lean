import TagLint.Proofs.EventStream
import TagLint.Proofs.RatioBounds

/-!
# Number ranges — the numbers that are read fit their kind

* `Number.InRange`: a natural number has 64 bits, a negative one is not zero and fits them with its sign, and a double
  is finite.
* `inRange_of_readNumber`: a number that is read is in range.  Leading digits are taken as long as they fit, and no
  power of ten brings a double to infinity without being refused.
* **`inRange_of_parse`**: so are all numbers in a value that is read, at any depth.
-/

namespace TagLint.Json

open Binary64 (powerWord)

/-- The number is one that its kind can be. -/
def Number.InRange : Number → Prop
  | .natural n => n < wordSize
  | .negative n => 0 < n ∧ n ≤ wordSize / 2
  | .double x => x.magnitude < Binary64.infinity

/-! ## Doubles -/

theorem appendDigits_lt {n : ℕ} (hn : n < wordSize) (cs : List Char) : (appendDigits n cs).1 < wordSize := by
  induction cs generalizing n with
  | nil => exact hn
  | cons c cs ih =>
    rw [appendDigits]
    split_ifs with hfits
    · exact ih hfits
    · exact hn

theorem infinity_pos : 0 < Binary64.infinity := by decide +kernel

theorem powerWord_lt_infinity : powerWord 64 < Binary64.infinity := by decide +kernel

theorem ofRatio_natural_le {n : ℕ} (hn : n < wordSize) : Binary64.ofRatio n 1 ≤ powerWord 64 := by
  apply Binary64.ofRatio_le
  rw [Nat.one_mul]
  exact hn

theorem one_lt_powerOfTen : ∀ n ≤ largestPower, 0 < n →
    (Binary64.toRatio (powerOfTen n)).2 < (Binary64.toRatio (powerOfTen n)).1 := by
  decide +kernel

/-- Dividing by powers of ten makes nothing larger. -/
theorem divideByTens_le {f n : ℕ} (hf : f ≤ powerWord 64) (hn : 0 < n) : divideByTens f n ≤ powerWord 64 := by
  induction f, n using divideByTens.induct with
  | case1 n =>
    rw [divideByTens, if_pos rfl]
    exact Nat.zero_le _
  | case2 f n hzero hsmall =>
    rw [divideByTens, if_neg hzero, if_pos hsmall]
    exact Binary64.div_le hf (one_lt_powerOfTen n hsmall hn)
  | case3 f n hzero hlarge ih =>
    rw [divideByTens, if_neg hzero, if_neg hlarge]
    exact ih (Binary64.div_le hf (one_lt_powerOfTen largestPower le_rfl (by decide))) (by omega)

theorem scale_lt {n w : ℕ} {e : ℤ} (hn : n < wordSize) (h : scale n e = some w) : w < Binary64.infinity := by
  have hf := ofRatio_natural_le hn
  unfold scale at h
  dsimp only at h
  split_ifs at h with hdown hsmall hinfinite hzero
  · obtain rfl := Option.some.inj h
    exact (divideByTens_le hf (by omega)).trans_lt powerWord_lt_infinity
  · obtain rfl := Option.some.inj h
    exact lt_of_le_of_ne (Binary64.ofRatio_le_infinity _ _) hinfinite
  · obtain rfl := Option.some.inj h
    exact infinity_pos

/-! ## Readers -/

/-- A reader finds numbers in range. -/
def Ranged (e : Except Fault (Number × List Char)) : Prop := ∀ a r, e = .ok (a, r) → a.InRange

variable {negative down : Bool} {n left : ℕ} {start e : ℤ}

theorem ranged_error (f : Fault) : Ranged (.error f) := nofun

theorem ranged_ok {a : Number} (h : a.InRange) (r : List Char) : Ranged (.ok (a, r)) := by
  rintro a r ⟨⟩
  exact h

theorem ranged_double (hn : n < wordSize) (r : List Char) : Ranged (double negative n e r) := by
  rw [double]
  rcases hs : scale n e with _ | w
  · exact ranged_error _
  · exact ranged_ok (a := .double ⟨negative, w⟩) (scale_lt hn hs) r

theorem inRange_integer (hn : n < wordSize) : (integer negative n).InRange := by
  unfold integer
  split_ifs with hsign hfits
  · exact hn
  · exact hfits
  · exact (ofRatio_natural_le hn).trans_lt powerWord_lt_infinity

theorem ranged_exponentDigits (hn : n < wordSize) (cs : List Char) :
    Ranged (exponentDigits negative n start down cs) := by
  unfold exponentDigits
  split
  · exact ranged_error _
  · split
    · dsimp only
      split
      · split
        · exact ranged_error _
        · exact ranged_ok (a := .double ⟨negative, 0⟩) infinity_pos _
      · exact ranged_double hn _
    · exact ranged_error _

theorem ranged_readExponent (hn : n < wordSize) (cs : List Char) : Ranged (readExponent negative n start cs) := by
  by_cases plus : cs.head? = some '+'
  · obtain ⟨cs, rfl⟩ := List.head?_eq_some_iff.mp plus
    exact ranged_exponentDigits hn cs
  by_cases minus : cs.head? = some '-'
  · obtain ⟨cs, rfl⟩ := List.head?_eq_some_iff.mp minus
    exact ranged_exponentDigits hn cs
  · rw [readExponent_of_head? plus minus]
    exact ranged_exponentDigits hn cs

theorem ranged_readScaled (hn : n < wordSize) (cs : List Char) : Ranged (readScaled negative n e cs) := by
  unfold readScaled
  split
  · exact ranged_readExponent hn _
  · exact ranged_readExponent hn _
  · exact ranged_double hn _

theorem ranged_readFraction (hn : n < wordSize) (cs : List Char) : Ranged (readFraction negative n left cs) := by
  unfold readFraction
  dsimp only
  split
  · exact ranged_error _
  · exact ranged_error _
  · exact ranged_readScaled (appendDigits_lt hn _) _

theorem ranged_afterInteger (hn : n < wordSize) (cs : List Char) : Ranged (afterInteger negative n left cs) := by
  unfold afterInteger
  split
  · exact ranged_readFraction hn _
  · exact ranged_readExponent hn _
  · exact ranged_readExponent hn _
  · split
    · exact ranged_ok (inRange_integer hn) _
    · exact ranged_double hn _

theorem ranged_readUnsigned (cs : List Char) : Ranged (readUnsigned negative cs) := by
  intro a r h
  obtain ⟨x, rest, rfl, hx, ends⟩ := exists_integer h
  rw [readUnsigned_integer hx ends] at h
  exact ranged_afterInteger (appendDigits_lt (by decide) x) rest a r h

theorem ranged_readNumber (cs : List Char) : Ranged (readNumber cs) := by
  unfold readNumber
  split
  · exact ranged_readUnsigned _
  · exact ranged_readUnsigned _

/-! ## Values -/

/-- All numbers of a value are in range, at any depth. -/
inductive InRange : Json → Prop
  | null : InRange .null
  | bool (b : Bool) : InRange (.bool b)
  | number {n : Number} (hn : n.InRange) : InRange (.number n)
  | string (s : String) : InRange (.string s)
  | array {items : List Json} (hitems : ∀ j ∈ items, InRange j) : InRange (.array items)
  | object {members : List (String × Json)} (hmembers : ∀ m ∈ members, InRange m.2) : InRange (.object members)

/-- A value of one token is in range. -/
def Lexeme.InRange (l : Lexeme) : Prop := ∀ j, l = .scalar j → j.InRange

theorem inRange_ofRead {α : Type} {cs : List Char} {k : α → Lexeme} {e : Except Fault (α × List Char)}
    (hk : ∀ a r, e = .ok (a, r) → (k a).InRange) : (Token.ofRead cs k e).lexeme.InRange := by
  cases e with
  | error f => exact nofun
  | ok r => exact hk r.1 r.2 rfl

theorem inRange_word {cs word rest : List Char} {j : Json} (hj : j.InRange) :
    (Token.ofRead cs .scalar ((readWord word rest).map fun r => (j, r))).lexeme.InRange := by
  cases readWord word rest with
  | error f => exact nofun
  | ok r =>
    rintro i ⟨⟩
    exact hj

theorem inRange_nextToken (text : List Char) : (nextToken text).lexeme.InRange := by
  unfold nextToken
  generalize skipSpace text = cs
  dsimp only
  split
  -- a string, the words, and what may be a number; marks hold no value
  case h_8 => exact inRange_ofRead fun s r _ => nofun
  case h_9 => exact inRange_word (.bool true)
  case h_10 => exact inRange_word (.bool false)
  case h_11 => exact inRange_word .null
  case h_12 =>
    split_ifs
    · apply inRange_ofRead
      rintro n r hread j ⟨⟩
      exact .number (ranged_readNumber _ n r hread)
    · exact nofun
  all_goals exact nofun

theorem inRange_of_mem_tokensUpTo {count : ℕ} {text : List Char} :
    ∀ t ∈ tokensUpTo count text, t.lexeme.InRange := by
  induction count generalizing text with
  | zero => exact nofun
  | succ count ih =>
    rw [tokensUpTo]
    split_ifs
    · exact List.forall_mem_singleton.mpr (inRange_nextToken text)
    · exact List.forall_mem_cons.mpr ⟨inRange_nextToken text, ih⟩

/-! ## The machine -/

/-- What stands in an open list or object is in range. -/
def Frame.InRange : Frame → Prop
  | .items done => ∀ j ∈ done, j.InRange
  | .members done | .member done _ => ∀ m ∈ done, m.2.InRange

/-- What the machine has after a token is in range. -/
def Progress.InRange : Progress → Prop
  | .done j => j.InRange
  | .more _ frames => ∀ f ∈ frames, f.InRange

variable {mode : Mode} {frames fs : List Frame} {t : Token} {p : Progress} {j : Json}

theorem inRange_finish (hj : j.InRange) (hframes : ∀ f ∈ frames, f.InRange) : (finish j frames).InRange := by
  cases frames with
  | nil => exact hj
  | cons f fs =>
    obtain ⟨hf, hfs⟩ := List.forall_mem_cons.mp hframes
    cases f with
    | items done => exact List.forall_mem_cons.mpr ⟨List.forall_mem_cons.mpr ⟨hj, hf⟩, hfs⟩
    | member done key => exact List.forall_mem_cons.mpr ⟨List.forall_mem_cons.mpr ⟨hj, hf⟩, hfs⟩
    | members done => exact hj

theorem inRange_of_stepValue (ht : t.lexeme.InRange) (hframes : ∀ f ∈ frames, f.InRange)
    (h : stepValue frames t = .ok p) : p.InRange := by
  unfold stepValue at h
  split at h
  · -- a list or an object is opened, with nothing in it
    obtain rfl := openFrame_eq_ok h
    exact List.forall_mem_cons.mpr ⟨nofun, hframes⟩
  · obtain rfl := openFrame_eq_ok h
    exact List.forall_mem_cons.mpr ⟨nofun, hframes⟩
  · -- a value is finished
    obtain rfl := Except.ok.inj h
    exact inRange_finish (.string _) hframes
  · rename_i j hj
    obtain rfl := Except.ok.inj h
    exact inRange_finish (ht j hj) hframes
  all_goals cases h

/-- A step keeps what is read in range. -/
theorem Move.inRange (move : Move t mode frames p) (ht : t.lexeme.InRange) (hframes : ∀ f ∈ frames, f.InRange) :
    p.InRange := by
  cases move with
  | value _ _ h => exact inRange_of_stepValue ht hframes h
  | closeList =>
    obtain ⟨hdone, hfs⟩ := List.forall_mem_cons.mp hframes
    exact inRange_finish (.array fun j hj => hdone j (List.mem_reverse.mp hj)) hfs
  | closeObject =>
    obtain ⟨hdone, hfs⟩ := List.forall_mem_cons.mp hframes
    exact inRange_finish (.object fun m hm => hdone m (List.mem_reverse.mp hm)) hfs
  | key =>
    obtain ⟨hdone, hfs⟩ := List.forall_mem_cons.mp hframes
    exact List.forall_mem_cons.mpr ⟨hdone, hfs⟩
  | nextItem | nextKey | colon => exact hframes

theorem inRange_of_run {guard : Guard} {toks rest : List Token} (fits : mode.Fits frames)
    (htoks : ∀ t ∈ toks, t.lexeme.InRange) (hframes : ∀ f ∈ frames, f.InRange)
    (h : run guard mode frames toks = .ok (j, rest)) : j.InRange := by
  induction toks generalizing mode frames with
  | nil => cases h
  | cons t toks ih =>
    obtain ⟨ht, htoks⟩ := List.forall_mem_cons.mp htoks
    obtain ⟨-, ⟨v, taken, same⟩ | ⟨m, fs, taken, h⟩⟩ := run_cons_eq_ok_iff.mp h
    · obtain rfl := (Prod.mk.inj same).1
      exact (move_of_step fits taken).inRange ht hframes
    · have move := move_of_step fits taken
      exact ih move.fits htoks (move.inRange ht hframes) h

/-- **The numbers of a value that is read are in range.** -/
theorem inRange_of_parse {text : String} (h : parse text = .ok j) : j.InRange := by
  rw [parse, read] at h
  rcases hread : readWith noGuard text.toList with f | i
  · rw [hread] at h
    cases h
  · rw [hread] at h
    obtain rfl := Except.ok.inj h
    obtain ⟨rest, hrun, -⟩ := readWith_eq_ok_iff.mp hread
    have hfits : Mode.value.Fits [] := List.forall_mem_nil _
    exact inRange_of_run hfits inRange_of_mem_tokensUpTo (List.forall_mem_nil _) hrun

end TagLint.Json

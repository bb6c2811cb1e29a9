import Mathlib.Data.List.TakeWhile
import TagLint.Json.Number

/-!
# Number text — what a number takes from a text

A number is read up to the first character that cannot go on with it.

* `Takes read`: what `read` takes is made of number characters, and before every text that ends a number it is
  taken again, with the same value.
* **`takes_readNumber`**: so the reader of numbers does, by one lemma for each part of a number.
-/

namespace TagLint.Json

/-- Characters that numbers are made of. -/
def isNumberChar (c : Char) : Bool := isDigit c || c = '-' || c = '+' || c = '.' || c = 'e' || c = 'E'

/-- A text before which every number ends. -/
def EndsNumber (r : List Char) : Prop := ∀ c ∈ r.head?, isNumberChar c = false

/-- What is taken from a text is made of number characters and does not depend on the text that ends it. -/
def Takes {α : Type} (read : List Char → Except Fault (α × List Char)) : Prop :=
  ∀ {cs r : List Char} {a : α}, read cs = .ok (a, r) →
    ∃ x, cs = x ++ r ∧ (∀ c ∈ x, isNumberChar c) ∧ ∀ r', EndsNumber r' → read (x ++ r') = .ok (a, r')

section Digits

variable {c : Char} {x r : List Char}

/-- A text that does not go on with digits. -/
def EndsDigits (r : List Char) : Prop := ∀ c ∈ r.head?, isDigit c = false

theorem isNumberChar_of_isDigit (h : isDigit c) : isNumberChar c := by simp [isNumberChar, h]

theorem EndsNumber.endsDigits (h : EndsNumber r) : EndsDigits r := fun c hc => by
  have hc := h c hc
  simp only [isNumberChar, Bool.or_eq_false_iff] at hc
  exact hc.1.1.1.1.1

theorem endsDigits_dropWhile (cs : List Char) : EndsDigits (cs.dropWhile isDigit) := fun c hc => by
  have h := List.head?_dropWhile_not isDigit cs
  rw [hc] at h
  simpa using h

/-- Another text behind the same start. -/
theorem EndsDigits.replace {y r' : List Char} (h : EndsDigits (y ++ r)) (hr' : EndsDigits r') :
    EndsDigits (y ++ r') := by
  cases y with
  | nil => exact hr'
  | cons c y => exact h

theorem takeWhile_isDigit (hx : ∀ c ∈ x, isDigit c) (hr : EndsDigits r) : (x ++ r).takeWhile isDigit = x := by
  rw [List.takeWhile_append_of_pos hx]
  cases r with
  | nil => simp
  | cons c r => simp [hr c rfl]

theorem dropWhile_isDigit (hx : ∀ c ∈ x, isDigit c) (hr : EndsDigits r) : (x ++ r).dropWhile isDigit = r := by
  rw [List.dropWhile_append_of_pos hx]
  cases r with
  | nil => rfl
  | cons c r => simp [hr c rfl]

/-- Every text is its leading digits and a text that does not go on with digits. -/
theorem exists_digits (cs : List Char) : ∃ x r, cs = x ++ r ∧ (∀ c ∈ x, isDigit c) ∧ EndsDigits r :=
  ⟨cs.takeWhile isDigit, cs.dropWhile isDigit, List.takeWhile_append_dropWhile.symm,
    fun _ hc => List.mem_takeWhile_imp hc, endsDigits_dropWhile cs⟩

/-- Only the digits tell whether an exponent is too large. -/
theorem isSome_overflowAt (hr : EndsDigits r) (e : Nat) (x : List Char) :
    (overflowAt e (x ++ r)).isSome = (overflowAt e x).isSome := by
  induction x generalizing e with
  | nil =>
    cases r with
    | nil => rfl
    | cons c r => simp [overflowAt, hr c rfl]
  | cons c x ih =>
    rw [List.cons_append, overflowAt, overflowAt]
    by_cases hc : isDigit c
    · simp only [hc, if_true]
      by_cases large : largestExponent < 10 * e + digitValue c
      · simp [large]
      · simpa [large] using ih _
    · simp [hc]

end Digits

section Readers

variable {negative down : Bool} {n left : Nat} {start e : Int}

theorem double_eq_ok {r r₀ : List Char} {a : Number} (h : double negative n e r = .ok (a, r₀)) :
    r₀ = r ∧ ∀ r', double negative n e r' = .ok (a, r') := by
  rw [double] at h
  cases hs : scale n e with
  | none => simp [hs] at h
  | some w =>
    simp only [hs, Except.ok.injEq, Prod.mk.injEq] at h
    exact ⟨h.2.symm, fun r' => by simp [double, hs, h.1]⟩

/-- A number character taken before what a reader takes. -/
theorem Takes.cons {α : Type} {read rest : List Char → Except Fault (α × List Char)} {c : Char} {cs r : List Char}
    {a : α} (h : Takes rest) (hc : isNumberChar c) (first : ∀ r', read (c :: r') = rest r')
    (ok : read (c :: cs) = .ok (a, r)) :
    ∃ x, c :: cs = x ++ r ∧ (∀ c ∈ x, isNumberChar c) ∧ ∀ r', EndsNumber r' → read (x ++ r') = .ok (a, r') := by
  obtain ⟨x, rfl, hx, again⟩ := h ((first cs).symm.trans ok)
  exact ⟨c :: x, rfl, by simpa [hc] using hx, fun r' hr' => (first _).trans (again r' hr')⟩

/-- The digits of an exponent; `down` tells its sign. -/
def exponentDigits (negative : Bool) (n : Nat) (start : Int) (down : Bool) (cs : List Char) :
    Except Fault (Number × List Char) :=
  match cs with
  | [] => .error (.before .endInValue [])
  | c :: _ =>
    if isDigit c then
      let rest := cs.dropWhile isDigit
      match overflowAt 0 cs with
      | some r =>
        if n ≠ 0 ∧ !down then .error (.before .numberOutOfRange r) else .ok (.double ⟨negative, 0⟩, rest)
      | none =>
        let e : Int := (appendDigits 0 (cs.takeWhile isDigit)).1
        double negative n (clampExponent (if down then start - e else start + e)) rest
    else .error (.atByte .invalidNumber cs)

theorem readExponent_plus (r : List Char) :
    readExponent negative n start ('+' :: r) = exponentDigits negative n start false r := rfl

theorem readExponent_minus (r : List Char) :
    readExponent negative n start ('-' :: r) = exponentDigits negative n start true r := rfl

theorem readExponent_of_head? {cs : List Char} (plus : cs.head? ≠ some '+') (minus : cs.head? ≠ some '-') :
    readExponent negative n start cs = exponentDigits negative n start false cs := by
  cases cs with
  | nil => rfl
  | cons c cs =>
    simp only [List.head?_cons, ne_eq, Option.some.injEq] at plus minus
    unfold readExponent
    split
    rename_i heq
    split at heq
    · rename_i same
      exact absurd (List.cons.inj same).1 plus
    · rename_i same
      exact absurd (List.cons.inj same).1 minus
    · obtain ⟨rfl, rfl⟩ := Prod.mk.inj heq
      rfl

/-- The digits of an exponent are read alike before all texts that do not go on with digits. -/
theorem exponentDigits_append {x r r' r₀ : List Char} {a : Number} (hx : x ≠ []) (digits : ∀ c ∈ x, isDigit c)
    (hr : EndsDigits r) (hr' : EndsDigits r')
    (h : exponentDigits negative n start down (x ++ r) = .ok (a, r₀)) :
    r₀ = r ∧ exponentDigits negative n start down (x ++ r') = .ok (a, r') := by
  obtain ⟨d, x, rfl⟩ := List.exists_cons_of_ne_nil hx
  have hd : isDigit d := digits d (by simp)
  have same : (overflowAt 0 (d :: x ++ r)).isSome = (overflowAt 0 (d :: x ++ r')).isSome := by
    rw [isSome_overflowAt hr, isSome_overflowAt hr']
  have taken := takeWhile_isDigit digits hr
  have taken' := takeWhile_isDigit digits hr'
  have left := dropWhile_isDigit digits hr
  have left' := dropWhile_isDigit digits hr'
  simp only [List.cons_append] at h same taken taken' left left' ⊢
  simp only [exponentDigits, hd, if_true, taken, taken', left, left'] at h ⊢
  cases ho : overflowAt 0 (d :: (x ++ r)) with
  | some large =>
    obtain ⟨large', ho'⟩ := Option.isSome_iff_exists.mp (same.symm.trans (by rw [ho]; rfl))
    simp only [ho, ho'] at h ⊢
    by_cases refused : n ≠ 0 ∧ (!down) = true
    · simp [refused] at h
    · simp only [refused, if_false, Except.ok.injEq, Prod.mk.injEq] at h ⊢
      exact ⟨h.2.symm, h.1, trivial⟩
  | none =>
    have ho' : overflowAt 0 (d :: (x ++ r')) = none := by simpa [ho] using same.symm
    simp only [ho, ho'] at h ⊢
    exact ⟨(double_eq_ok h).1, (double_eq_ok h).2 r'⟩

theorem takes_exponentDigits : Takes (exponentDigits negative n start down) := fun {cs r a} h => by
  obtain ⟨x, rest, rfl, digits, ends⟩ := exists_digits cs
  have hx : x ≠ [] := by
    rintro rfl
    cases rest with
    | nil => simp [exponentDigits] at h
    | cons c rest => simp [exponentDigits, ends c rfl] at h
  obtain ⟨rfl, -⟩ := exponentDigits_append hx digits ends ends h
  exact ⟨x, rfl, fun c hc => isNumberChar_of_isDigit (digits c hc),
    fun r' hr' => (exponentDigits_append hx digits ends hr'.endsDigits h).2⟩

theorem endsNumber_nil : EndsNumber [] := by simp [EndsNumber]

theorem takes_readExponent : Takes (readExponent negative n start) := fun {cs r a} h => by
  by_cases plus : cs.head? = some '+'
  · obtain ⟨cs, rfl⟩ := List.head?_eq_some_iff.mp plus
    exact takes_exponentDigits.cons (by decide) readExponent_plus h
  by_cases minus : cs.head? = some '-'
  · obtain ⟨cs, rfl⟩ := List.head?_eq_some_iff.mp minus
    exact takes_exponentDigits.cons (by decide) readExponent_minus h
  · rw [readExponent_of_head? plus minus] at h
    obtain ⟨x, rfl, hx, again⟩ := takes_exponentDigits h
    cases x with
    | nil => simpa [exponentDigits] using again [] endsNumber_nil
    | cons c x =>
      refine ⟨c :: x, rfl, hx, fun r' hr' => ?_⟩
      rw [readExponent_of_head? (by simpa using plus) (by simpa using minus)]
      exact again r' hr'

theorem takes_readScaled : Takes (readScaled negative n e) := fun {cs r a} h => by
  unfold readScaled at h
  split at h
  · exact takes_readExponent.cons (by decide) (fun _ => rfl) h
  · exact takes_readExponent.cons (by decide) (fun _ => rfl) h
  · obtain ⟨rfl, again⟩ := double_eq_ok h
    refine ⟨[], rfl, by simp, fun r' hr' => ?_⟩
    rw [List.nil_append, ← again r', readScaled]
    · rintro r rfl
      simpa [isNumberChar] using hr' 'e'
    · rintro r rfl
      simpa [isNumberChar] using hr' 'E'

theorem readFraction_digits {x r : List Char} (hx : x ≠ []) (digits : ∀ c ∈ x, isDigit c) (hr : EndsDigits r) :
    readFraction negative n left (x ++ r) =
      readScaled negative (appendDigits n x).1 ((left : Int) - (x.length - (appendDigits n x).2 : Nat)) r := by
  obtain ⟨d, x, rfl⟩ := List.exists_cons_of_ne_nil hx
  simp only [readFraction, takeWhile_isDigit digits hr, dropWhile_isDigit digits hr]

theorem takes_readFraction : Takes (readFraction negative n left) := fun {cs r a} h => by
  obtain ⟨x, rest, rfl, digits, ends⟩ := exists_digits cs
  have hx : x ≠ [] := by
    rintro rfl
    cases rest with
    | nil => simp [readFraction] at h
    | cons c rest => simp [readFraction, ends c rfl] at h
  rw [readFraction_digits hx digits ends] at h
  obtain ⟨y, rfl, hy, again⟩ := takes_readScaled h
  refine ⟨x ++ y, (List.append_assoc ..).symm, ?_, fun r' hr' => ?_⟩
  · exact List.forall_mem_append.mpr ⟨fun c hc => isNumberChar_of_isDigit (digits c hc), hy⟩
  · rw [List.append_assoc, readFraction_digits hx digits (ends.replace hr'.endsDigits), again r' hr']

/-- What may follow the digits before the point: a fraction, an exponent, or the end of the number. -/
def afterInteger (negative : Bool) (n left : Nat) (cs : List Char) : Except Fault (Number × List Char) :=
  match cs with
  | '.' :: r => readFraction negative n left r
  | 'e' :: r => readExponent negative n left r
  | 'E' :: r => readExponent negative n left r
  | r => if left = 0 then .ok (integer negative n, r) else double negative n left r

theorem takes_afterInteger : Takes (afterInteger negative n left) := fun {cs r a} h => by
  have stops {r' : List Char} (hr' : EndsNumber r') : afterInteger negative n left r' =
      if left = 0 then .ok (integer negative n, r') else double negative n left r' := by
    unfold afterInteger
    split
    · simpa [isNumberChar] using hr' '.'
    · simpa [isNumberChar] using hr' 'e'
    · simpa [isNumberChar] using hr' 'E'
    · rfl
  unfold afterInteger at h
  split at h
  · exact takes_readFraction.cons (by decide) (fun _ => rfl) h
  · exact takes_readExponent.cons (by decide) (fun _ => rfl) h
  · exact takes_readExponent.cons (by decide) (fun _ => rfl) h
  · by_cases fits : left = 0
    · simp only [fits, if_true, Except.ok.injEq, Prod.mk.injEq] at h
      exact ⟨[], h.2, by simp, fun r' hr' => by rw [List.nil_append, stops hr', if_pos fits, h.1]⟩
    · rw [if_neg fits] at h
      obtain ⟨rfl, again⟩ := double_eq_ok h
      exact ⟨[], rfl, by simp, fun r' hr' => by rw [List.nil_append, stops hr', if_neg fits, again r']⟩

/-- The digits before the point are a zero alone, or do not start with a zero. -/
def IsInteger (x : List Char) : Prop :=
  x ≠ [] ∧ (∀ c ∈ x, isDigit c) ∧ (x = ['0'] ∨ x.head? ≠ some '0')

theorem readUnsigned_integer {x r : List Char} (hx : IsInteger x) (hr : EndsDigits r) :
    readUnsigned negative (x ++ r) = afterInteger negative (appendDigits 0 x).1 (appendDigits 0 x).2 r := by
  obtain ⟨ne, digits, rfl | nonzero⟩ := hx
  · show readUnsigned negative ('0' :: r) = afterInteger negative 0 0 r
    unfold afterInteger
    split
    · rfl
    · rfl
    · rfl
    · unfold readUnsigned
      cases r with
      | nil => rfl
      | cons c r =>
        have hc : isDigit c = false := hr c rfl
        simp only
        split <;> simp_all
  · obtain ⟨d, x, rfl⟩ := List.exists_cons_of_ne_nil ne
    have hd : isDigit d := digits d (by simp)
    have hz : d ≠ '0' := by simpa using nonzero
    have taken := takeWhile_isDigit digits hr
    have left := dropWhile_isDigit digits hr
    unfold readUnsigned
    simp only [List.cons_append, hd, if_true] at taken left ⊢
    rw [taken, left]
    rfl

/-- A number that is read starts with such digits. -/
theorem exists_integer {cs r : List Char} {a : Number} (h : readUnsigned negative cs = .ok (a, r)) :
    ∃ x rest, cs = x ++ rest ∧ IsInteger x ∧ EndsDigits rest := by
  cases cs with
  | nil => simp [readUnsigned] at h
  | cons c cs =>
    by_cases zero : c = '0'
    · subst zero
      refine ⟨['0'], cs, rfl, ⟨by simp, List.forall_mem_singleton.mpr rfl, .inl rfl⟩, fun d hd => ?_⟩
      obtain ⟨cs, rfl⟩ := List.head?_eq_some_iff.mp hd
      by_contra digit
      rw [Bool.not_eq_false] at digit
      have hp : d ≠ '.' ∧ d ≠ 'e' ∧ d ≠ 'E' := by
        refine ⟨?_, ?_, ?_⟩ <;> rintro rfl <;> exact absurd digit (by decide)
      simp [readUnsigned, digit, hp] at h
    · have hc : isDigit c := by
        by_contra digit
        simp [readUnsigned, digit] at h
      obtain ⟨x, rest, rfl, digits, ends⟩ := exists_digits cs
      exact ⟨c :: x, rest, rfl, ⟨by simp, by simpa [hc] using digits, .inr (by simpa using zero)⟩, ends⟩

theorem takes_readUnsigned : Takes (readUnsigned negative) := fun {cs r a} h => by
  obtain ⟨x, rest, rfl, hx, ends⟩ := exists_integer h
  rw [readUnsigned_integer hx ends] at h
  obtain ⟨y, rfl, hy, again⟩ := takes_afterInteger h
  refine ⟨x ++ y, (List.append_assoc ..).symm, ?_, fun r' hr' => ?_⟩
  · exact List.forall_mem_append.mpr ⟨fun c hc => isNumberChar_of_isDigit (hx.2.1 c hc), hy⟩
  · rw [List.append_assoc, readUnsigned_integer hx (ends.replace hr'.endsDigits), again r' hr']

theorem takes_readNumber : Takes readNumber := fun {cs r a} h => by
  by_cases minus : cs.head? = some '-'
  · obtain ⟨cs, rfl⟩ := List.head?_eq_some_iff.mp minus
    exact takes_readUnsigned.cons (by decide) (fun _ => rfl) h
  · have unsigned {cs : List Char} (minus : cs.head? ≠ some '-') : readNumber cs = readUnsigned false cs := by
      unfold readNumber
      split <;> simp_all
    rw [unsigned minus] at h
    obtain ⟨x, rfl, hx, again⟩ := takes_readUnsigned h
    cases x with
    | nil => simpa [readUnsigned] using again [] endsNumber_nil
    | cons c x => exact ⟨c :: x, rfl, hx, fun r' hr' => (unsigned (by simpa using minus)).trans (again r' hr')⟩

end Readers

end TagLint.Json

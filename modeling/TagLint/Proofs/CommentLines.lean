import Mathlib.Data.List.Forall2
import TagLint.Json.Comment
import TagLint.Proofs.SplitText
import TagLint.Rule.Config

/-!
# Comment lines — what is left of a text stands on its line

* `Keeps s t`: the list `s` is `t` without some characters, none of them a line feed.  The text without comments is
  the text without some such characters, in whatever region reading starts (`keeps_stripFrom`).
* `Keeps.forall₂_splitAt`: line by line, such a list is a subsequence.
* `Place.exists_line_advance`: a place that is reached in a text is on a line of the text.
* **`RuleConfig.stripComments_keeps_lines`**: so an error in the text without comments names a line of the text itself.
-/

namespace TagLint.Json

open Text

variable {s t : List Char}

/-! ## Lists without some characters -/

/-- The first list is the second one without some characters, none of them a line feed. -/
inductive Keeps : List Char → List Char → Prop
  | nil : Keeps [] []
  | keep (c : Char) {s t : List Char} : Keeps s t → Keeps (c :: s) (c :: t)
  | drop {c : Char} {s t : List Char} : c ≠ '\n' → Keeps s t → Keeps s (c :: t)

/-- Every line feed is kept, in whatever region reading starts. -/
theorem keeps_stripFrom (region : Region) (t : List Char) : Keeps (stripFrom region t) t := by
  fun_induction stripFrom region t with
  | case1 => exact .nil
  | case2 cs ih => exact .drop (by decide) (.drop (by decide) ih)
  | case3 cs ih => exact .drop (by decide) (.drop (by decide) ih)
  | case4 c cs _ _ ih => exact .keep c ih
  | case5 c cs ih => exact .keep c ih
  | case6 c cs ih => exact .keep c ih
  | case7 cs ih => exact .keep '\n' ih
  | case8 c cs feed ih => exact .drop feed ih
  | case9 star c cs closes ih =>
    -- what closes a comment is a slash
    have slash : c = '/' := by simpa using (Bool.and_eq_true_iff.mp closes).2
    exact .drop (by rw [slash]; decide) ih
  | case10 star cs _ ih => exact .keep '\n' ih
  | case11 star c cs _ feed ih => exact .drop feed ih

theorem Keeps.count_eq (h : Keeps s t) : s.count '\n' = t.count '\n' := by
  induction h with
  | nil => rfl
  | keep c _ ih => rw [List.count_cons, List.count_cons, ih]
  | drop feed _ ih => rw [List.count_cons_of_ne feed, ih]

/-- Line by line, a list without some characters other than line feeds is a subsequence. -/
theorem Keeps.forall₂_splitAt (h : Keeps s t) : List.Forall₂ List.Sublist (splitAt '\n' s) (splitAt '\n' t) := by
  induction h with
  | nil => exact .cons (List.Sublist.refl []) .nil
  | @keep c s t _ ih =>
    by_cases feed : c = '\n'
    · rw [splitAt, splitAt, if_pos feed, if_pos feed]
      exact .cons (List.Sublist.refl []) ih
    · obtain ⟨left, lefts, hs, hs'⟩ := splitAt_cons_of_ne feed s
      obtain ⟨line, lines, ht, ht'⟩ := splitAt_cons_of_ne feed t
      rw [hs, ht] at ih
      obtain ⟨first, others⟩ := List.forall₂_cons.mp ih
      rw [hs', ht']
      exact .cons (first.cons_cons c) others
  | @drop c s t feed _ ih =>
    obtain ⟨left, lefts, hs⟩ := List.exists_cons_of_ne_nil (splitAt_ne_nil '\n' s)
    obtain ⟨line, lines, ht, ht'⟩ := splitAt_cons_of_ne feed t
    rw [hs, ht] at ih
    obtain ⟨first, others⟩ := List.forall₂_cons.mp ih
    rw [hs, ht']
    exact .cons (first.cons c) others

/-! ## Places -/

/-- A place that is reached in a text from `p` on is on a line of the text, which the first line continues from `p`. -/
theorem Place.exists_line_advance (p : Place) (cs : List Char) (bytes : ℕ) :
    ∃ i line, (p.advance cs bytes).line = p.line + i ∧ (splitAt '\n' cs)[i]? = some line ∧
      (p.advance cs bytes).column ≤ (if i = 0 then p.column else 0) + byteLength line := by
  fun_induction Place.advance p cs bytes with
  | case1 cs p =>
    obtain ⟨line, lines, hlines⟩ := List.exists_cons_of_ne_nil (splitAt_ne_nil '\n' cs)
    exact ⟨0, line, rfl, by rw [hlines]; rfl, Nat.le_add_right _ _⟩
  | case2 p bytes _ => exact ⟨0, [], rfl, rfl, Nat.le_add_right _ _⟩
  | case3 p c cs bytes nonzero inside =>
    have feed : c ≠ '\n' := by
      rintro rfl
      exact absurd (Nat.lt_one_iff.mp inside) nonzero
    obtain ⟨line, lines, -, hlines⟩ := splitAt_cons_of_ne feed cs
    refine ⟨0, c :: line, rfl, by rw [hlines]; rfl, ?_⟩
    rw [if_pos rfl, byteLength_cons]
    show p.column + bytes ≤ p.column + (c.utf8Size + byteLength line)
    omega
  | case4 p cs bytes _ _ ih =>
    obtain ⟨i, line, hline, hget, hcolumn⟩ := ih
    refine ⟨i + 1, line, by rw [hline, Nat.add_assoc, Nat.add_comm 1], hget, ?_⟩
    simpa using hcolumn
  | case5 p c cs bytes _ _ feed ih =>
    obtain ⟨i, line, hline, hget, hcolumn⟩ := ih
    obtain ⟨first, lines, hcs, hlines⟩ := splitAt_cons_of_ne feed cs
    rw [hcs] at hget
    cases i with
    | zero =>
      obtain rfl : first = line := Option.some.inj hget
      refine ⟨0, c :: first, hline, by rw [hlines]; rfl, ?_⟩
      rw [if_pos rfl] at hcolumn ⊢
      rw [byteLength_cons, ← Nat.add_assoc]
      exact hcolumn
    | succ i => exact ⟨i + 1, line, hline, by rw [hlines]; exact hget, hcolumn⟩

end TagLint.Json

namespace TagLint.RuleConfig

open Json Text

theorem parse_eq_error_iff {text : String} {e : ParseError} : parse text = .error e ↔
    ∃ f, read (stripComments text.toList) = .error f ∧ e = ⟨f.locate (stripComments text.toList)⟩ := by
  rw [parse]
  cases read (stripComments text.toList) with
  | error f => simp [Except.mapError, eq_comm]
  | ok config => simp [Except.mapError]

/-- **Comments and lines.**  The text without comments has the line feeds of the text, and each of its lines is a
subsequence of the line of the text with the same number.  So the line that an error names is one of the text, and
the error is placed in what is left of it. -/
theorem stripComments_keeps_lines (text : String) :
    let bare := stripComments text.toList
    bare.count '\n' = text.toList.count '\n' ∧
    List.Forall₂ List.Sublist (splitAt '\n' bare) (splitAt '\n' text.toList) ∧
    ∀ e, parse text = .error e → ∃ i left line, e.refusal.place.line = i + 1 ∧
      (splitAt '\n' bare)[i]? = some left ∧ (splitAt '\n' text.toList)[i]? = some line ∧ left.Sublist line ∧
      e.refusal.place.column ≤ byteLength left := by
  intro bare
  have keeps : Keeps bare text.toList := keeps_stripFrom .code text.toList
  refine ⟨keeps.count_eq, keeps.forall₂_splitAt, fun e h => ?_⟩
  obtain ⟨f, -, rfl⟩ := parse_eq_error_iff.mp h
  obtain ⟨i, left, hline, hleft, hcolumn⟩ := Place.exists_line_advance ⟨1, 0⟩ bare
    (byteLength bare - byteLength f.rest + f.bytes)
  obtain ⟨hi, rfl⟩ := List.getElem?_eq_some_iff.mp hleft
  have hi' : i < (splitAt '\n' text.toList).length := keeps.forall₂_splitAt.length_eq ▸ hi
  refine ⟨i, _, _, hline.trans (Nat.add_comm 1 i), hleft, List.getElem?_eq_getElem hi',
    keeps.forall₂_splitAt.get hi hi', ?_⟩
  exact Nat.le_trans hcolumn (Nat.le_of_eq (by simp))

/-- A number is broken by a comment with a line feed, behind a comment that runs over two lines: the error names the
fourth line, and so many bytes are left of that line before it. -/
theorem stripComments_keeps_lines_brokenNumber :
    let text := "\x7b // \"limit\"\n\"k\": /* \"\n */ 1/*\n*/2 \x7d"
    let e : ParseError := ⟨⟨.expectedObjectEnd, ⟨4, 1⟩⟩⟩
    parse text = .error e ∧ ∃ i left line, e.refusal.place.line = i + 1 ∧
      (splitAt '\n' (stripComments text.toList))[i]? = some left ∧ (splitAt '\n' text.toList)[i]? = some line ∧
      left.Sublist line ∧ e.refusal.place.column ≤ byteLength left := by
  refine ⟨rfl, ?_⟩
  exact (stripComments_keeps_lines _).2.2 _ rfl

end TagLint.RuleConfig

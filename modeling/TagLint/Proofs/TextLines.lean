import Mathlib.Data.List.DropRight
import TagLint.Proofs.SplitText
import TagLint.Text.Lines

/-!
# The lines of a text

Lines are what stands between line feeds, so a place in a text is on the line that `lastLine` begins and `firstLine`
ends (`getElem?_splitAt_append`).  The pieces that end in line feeds are these lines, but for an empty last one
(`getD_pieces`).
-/

namespace TagLint.Text

/-! ## Around a place -/

/-- What stands behind the last line feed. -/
def lastLine (cs : List Char) : List Char := cs.rtakeWhile (· != '\n')

/-- What stands in front of the first line feed. -/
def firstLine (cs : List Char) : List Char := cs.takeWhile (· != '\n')

theorem lastLine_of_not_mem {cs : List Char} (h : '\n' ∉ cs) : lastLine cs = cs := by
  refine List.rtakeWhile_eq_self_iff.mpr fun c hc => ?_
  rw [bne_iff_ne]
  rintro rfl
  exact h hc

theorem lastLine_append {as bs : List Char} (h : '\n' ∉ bs) : lastLine (as ++ bs) = lastLine as ++ bs := by
  have hall : ∀ c ∈ bs.reverse, (c != '\n') = true := fun c hc => by
    rw [bne_iff_ne]
    rintro rfl
    exact h (List.mem_reverse.mp hc)
  unfold lastLine List.rtakeWhile
  rw [List.reverse_append, List.takeWhile_append_of_pos hall, List.reverse_append, List.reverse_reverse]

theorem lastLine_append_of_mem {as bs : List Char} (h : '\n' ∈ bs) : lastLine (as ++ bs) = lastLine bs := by
  have hlen : (bs.reverse.takeWhile (· != '\n')).length ≠ bs.reverse.length := fun heq => by
    have hall := List.takeWhile_eq_self_iff.mp ((List.takeWhile_prefix _).eq_of_length heq)
    exact bne_iff_ne.mp (hall '\n' (List.mem_reverse.mpr h)) rfl
  unfold lastLine List.rtakeWhile
  rw [List.reverse_append, List.takeWhile_append, if_neg hlen]

theorem lastLine_line_feed_cons (cs : List Char) : lastLine ('\n' :: cs) = lastLine cs := by
  by_cases h : '\n' ∈ cs
  · exact @lastLine_append_of_mem ['\n'] cs h
  · rw [show '\n' :: cs = ['\n'] ++ cs from rfl, lastLine_append h, lastLine_of_not_mem h]
    rfl

theorem firstLine_append {as : List Char} (h : '\n' ∉ as) (bs : List Char) :
    firstLine (as ++ bs) = as ++ firstLine bs := by
  refine List.takeWhile_append_of_pos fun c hc => ?_
  rw [bne_iff_ne]
  rintro rfl
  exact h hc

theorem firstLine_cons {c : Char} (h : c ≠ '\n') (cs : List Char) : firstLine (c :: cs) = c :: firstLine cs :=
  @firstLine_append [c] (fun hmem => h (List.mem_singleton.mp hmem).symm) cs

theorem length_firstLine_append_lt {as : List Char} (h : '\n' ∈ as) (bs : List Char) :
    (firstLine (as ++ bs)).length < as.length := by
  obtain ⟨xs, ys, rfl, hxs⟩ := List.eq_append_cons_of_mem h
  have hfirst : firstLine ('\n' :: (ys ++ bs)) = [] := rfl
  rw [List.append_assoc, List.cons_append, firstLine_append hxs, hfirst, List.append_nil, List.length_append,
    List.length_cons]
  omega

/-! ## Dropping an end -/

theorem dropEnd_cons {c d : Char} (h : d ≠ c) (cs : List Char) : dropEnd c (d :: cs) = d :: dropEnd c cs := by
  rcases List.eq_nil_or_concat cs with rfl | ⟨cs, e, rfl⟩
  · have hlast : [d].getLast? ≠ some c := fun heq => h (Option.some.inj heq)
    rw [dropEnd, if_neg hlast]
    rfl
  · rw [List.concat_eq_append, ← List.cons_append, dropEnd, dropEnd, List.getLast?_concat, List.getLast?_concat]
    split_ifs
    · rw [List.dropLast_concat, List.dropLast_concat]
    · rfl

/-- At most one character is dropped. -/
theorem eq_dropEnd_or (c : Char) (cs : List Char) : cs = dropEnd c cs ∨ cs = dropEnd c cs ++ [c] := by
  unfold dropEnd
  split_ifs with hlast
  · obtain ⟨ds, rfl⟩ := List.getLast?_eq_some_iff.mp hlast
    exact .inr (by rw [List.dropLast_concat])
  · exact .inl rfl

theorem not_mem_dropEnd {c d : Char} {cs : List Char} (h : c ∉ cs) : c ∉ dropEnd d cs := by
  unfold dropEnd
  split_ifs
  · exact fun hmem => h ((List.dropLast_sublist cs).subset hmem)
  · exact h

theorem exists_dropEnd_append {c d : Char} (hd : d ≠ c) (as bs : List Char) :
    ∃ cs, dropEnd c (as ++ [d] ++ bs) = as ++ [d] ++ cs := by
  unfold dropEnd
  split
  · rename_i hlast
    rcases List.eq_nil_or_concat bs with rfl | ⟨bs, b, rfl⟩
    · rw [List.append_nil, List.getLast?_concat, Option.some.injEq] at hlast
      exact absurd hlast hd
    · exact ⟨bs, by rw [List.concat_eq_append, ← List.append_assoc, List.dropLast_concat]⟩
  · exact ⟨bs, rfl⟩

/-! ## Lines between line feeds -/

theorem pieces_eq_nil_iff {cs : List Char} : pieces cs = [] ↔ cs = [] := by
  constructor
  · intro h
    rw [← flatten_pieces cs, h, List.flatten_nil]
  · rintro rfl
    rfl

/-- The pieces that end in line feeds are the lines between them, but for an empty last one. -/
theorem getD_pieces (cs : List Char) (i : ℕ) :
    ((pieces cs)[i]?.map (dropEnd '\n')).getD [] = (splitAt '\n' cs)[i]?.getD [] := by
  induction cs generalizing i with
  | nil => cases i <;> rfl
  | cons c cs ih =>
    by_cases hc : c = '\n'
    · rw [pieces, splitAt, if_pos hc, if_pos hc, hc]
      cases i with
      | zero => rfl
      | succ i => exact ih i
    · obtain ⟨line, lines, hlines, hcons⟩ := splitAt_cons_of_ne hc cs
      rw [pieces, if_neg hc, hcons]
      cases hp : pieces cs with
      | nil =>
        obtain rfl := pieces_eq_nil_iff.mp hp
        cases hlines
        cases i with
        | zero => exact dropEnd_cons hc []
        | succ i => rfl
      | cons p ps =>
        rw [hp, hlines] at ih
        cases i with
        | zero =>
          have hhead : dropEnd '\n' p = line := ih 0
          show dropEnd '\n' (c :: p) = c :: line
          rw [dropEnd_cons hc, hhead]
        | succ i => exact ih (i + 1)

theorem head?_splitAt (cs : List Char) : (splitAt '\n' cs).head? = some (firstLine cs) := by
  induction cs with
  | nil => rfl
  | cons c cs ih =>
    by_cases hc : c = '\n'
    · rw [splitAt, if_pos hc, hc]
      rfl
    · obtain ⟨line, lines, hlines, hcons⟩ := splitAt_cons_of_ne hc cs
      rw [hlines, List.head?_cons, Option.some.injEq] at ih
      rw [hcons, List.head?_cons, firstLine_cons hc, ih]

/-- The line of a place: what stands before the place since the last line feed, and behind it up to the next one. -/
theorem getElem?_splitAt_append (before rest : List Char) :
    (splitAt '\n' (before ++ rest))[before.count '\n']? = some (lastLine before ++ firstLine rest) := by
  induction before with
  | nil =>
    rw [List.count_nil, ← List.head?_eq_getElem?]
    exact head?_splitAt rest
  | cons c before ih =>
    by_cases hc : c = '\n'
    · rw [List.cons_append, splitAt, if_pos hc, hc, List.count_cons_self, List.getElem?_cons_succ, ih,
        lastLine_line_feed_cons]
    · obtain ⟨line, lines, hlines, hcons⟩ := splitAt_cons_of_ne hc (before ++ rest)
      rw [List.cons_append, List.count_cons_of_ne hc, hcons]
      rw [hlines] at ih
      by_cases hmem : '\n' ∈ before
      · -- the first line ends inside `before`
        obtain ⟨n, hn⟩ := Nat.exists_eq_succ_of_ne_zero (List.count_pos_iff.mpr hmem).ne'
        rw [show lastLine (c :: before) = lastLine before from @lastLine_append_of_mem [c] before hmem]
        rw [hn, List.getElem?_cons_succ] at ih ⊢
        exact ih
      · have hmem' : '\n' ∉ c :: before := fun h => (List.mem_cons.mp h).elim (fun h => hc h.symm) hmem
        rw [List.count_eq_zero.mpr hmem, List.getElem?_cons_zero, Option.some.injEq, lastLine_of_not_mem hmem] at ih
        rw [List.count_eq_zero.mpr hmem, List.getElem?_cons_zero, lastLine_of_not_mem hmem', ih]
        rfl

end TagLint.Text

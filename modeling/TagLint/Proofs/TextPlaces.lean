import TagLint.Proofs.TextLines
import TagLint.Report.Diagnostic

/-!
# Places in a text

The place behind a part of a text is a line and a UTF-16 column, read off that part alone (`placeAfter`).
`Report.range_eq` says that a range is cut out of the line of its finding, and `Report.range_start` that a finding with
the line and the column of a place has a range that starts there.
-/

namespace TagLint

namespace Text

/-- The line and the UTF-16 column, both from zero, of what comes next. -/
def placeAfter (cs : List Char) : Nat × Nat := (cs.count '\n', units16 (lastLine cs))

theorem getElem?_linesFrom (offset : Nat) (ps : List (List Char)) (i : Nat) :
    (linesFrom offset ps)[i]?.map Line.text = ps[i]?.map fun p => dropEnd '\r' (dropEnd '\n' p) := by
  induction ps generalizing offset i with
  | nil => rfl
  | cons p ps ih =>
    cases i with
    | zero => rfl
    | succ i => exact ih _ i

end Text

namespace Report

open Text

/-! ## Ranges on a line -/

/-- A range is cut out of the line of its finding.  A line that is missing is as an empty one. -/
theorem range_eq {text line : List Char} {f : Finding} {i : ℕ} (hget : (splitAt '\n' text)[i]? = some line)
    (h : f.line.toNat = i + 1) :
    range f text = ⟨⟨.satPred f.line, utf16Column (dropEnd '\r' line) (tokenChars (dropEnd '\r' line) f.col).1⟩,
      ⟨.satPred f.line, utf16Column (dropEnd '\r' line) (tokenChars (dropEnd '\r' line) f.col).2⟩⟩ := by
  have hzero : f.line ≠ 0 := fun hz => by simp [hz] at h
  have hline : line? text f.line = (linesFrom 0 (pieces text))[i]? := by
    rw [line?, if_neg hzero, h, Nat.add_sub_cancel]
    rfl
  have htext := getElem?_linesFrom 0 (pieces text) i
  have hpiece := getD_pieces text i
  rw [← hline] at htext
  rw [hget, Option.getD_some] at hpiece
  rw [range]
  cases hsource : line? text f.line with
  | some source =>
    rw [hsource] at htext
    obtain ⟨p, hp, hp'⟩ := Option.map_eq_some_iff.mp htext.symm
    rw [hp, Option.map_some, Option.getD_some] at hpiece
    rw [← hpiece, hp']
  | none =>
    rw [hsource] at htext
    rw [Option.map_eq_none_iff.mp htext.symm] at hpiece
    obtain rfl : [] = line := hpiece
    simp [utf16Column, tokenChars, Coord.satPred, dropEnd]

/-! ## Where a range starts -/

theorem toNat_utf16Column {as : List Char} (h : units16 as < UInt32.size) (bs : List Char) :
    (utf16Column (as ++ bs) as.length).toNat = units16 as := by
  have hsub : as.length - (as ++ bs).length = 0 := by rw [List.length_append]; omega
  have hmax : units16 as ≤ 4294967295 := Nat.le_of_lt_succ h
  rw [utf16Column, List.take_left, hsub, Nat.add_zero, Coord.toNat_clamp, Nat.min_eq_left hmax]

/-- **A range starts where its finding points.**  `before` is the text up to there; what stands there on the line
does not end in a carriage return. -/
theorem range_start {before word : List Char} {last : Char} {finding : Finding} (hword : '\n' ∉ word ++ [last])
    (hlast : last ≠ '\r') (hline : finding.line.toNat = before.count '\n' + 1)
    (hcol : finding.col.toNat = (lastLine before).length + 1) (hunits : units16 (lastLine before) < UInt32.size)
    (rest : List Char) :
    let start := (range finding (before ++ (word ++ [last] ++ rest))).start
    (start.line.toNat, start.character.toNat) = placeAfter before := by
  have hget := getElem?_splitAt_append before (word ++ [last] ++ rest)
  rw [firstLine_append hword] at hget
  -- a carriage return at the end of the line stands behind the word
  obtain ⟨q, hq⟩ := exists_dropEnd_append hlast (lastLine before ++ word) (firstLine rest)
  have hdrop : dropEnd '\r' (lastLine before ++ (word ++ [last] ++ firstLine rest)) =
      lastLine before ++ (word ++ [last] ++ q) := by simpa only [List.append_assoc] using hq
  rw [range_eq hget hline, hdrop]
  show ((Coord.satPred finding.line).toNat,
    (utf16Column (lastLine before ++ (word ++ [last] ++ q)) (finding.col.toNat - 1)).toNat) = placeAfter before
  rw [Coord.toNat_satPred, hline, hcol, Nat.add_sub_cancel, Nat.add_sub_cancel, toNat_utf16Column hunits]
  rfl

end Report

end TagLint

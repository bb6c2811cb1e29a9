import TagLint.Proofs.TextSlices
import TagLint.Proofs.TokenRanges

/-!
# Token slices — the bytes that a terminal marks and the code units that an editor marks

A terminal counts the bytes of the whole text, an editor the UTF-16 code units of a line.

* `LineAt text i before line after`: where a line stands, and where its terminator; `offset_of_lineAt` says that the
  offset of a line counts the bytes before it.
* **`byteSpan_selects_range`**: a span never cuts a character, and the bytes in it are those of the code units that are
  in the range and on the line.
-/

namespace TagLint

/-- A part of a list between two places, of which those behind the end count as the end. -/
theorem drop_take_of_min {α : Type} {as bs cs : List α} {m n : ℕ} (hm : min m (as ++ (bs ++ cs)).length = as.length)
    (hn : min n (as ++ (bs ++ cs)).length = (as ++ bs).length) : ((as ++ (bs ++ cs)).take n).drop m = bs := by
  have htake : (as ++ (bs ++ cs)).take n = as ++ bs := by
    rw [List.take_eq_take_min, hn, ← List.append_assoc, List.take_left]
  have hdrop : min m (as ++ bs).length = as.length := by
    simp only [List.length_append] at hm hn ⊢
    omega
  rw [htake, List.drop_eq_drop_min, hdrop, List.drop_left]

namespace Text

variable {text before line after head token tail : List Char} {i : ℕ}

/-! ## Lines and what is before them -/

/-- A line behind so many line feeds.  Behind it comes its terminator: a line feed, one with a carriage return before
it, or at the end of the text nothing or a carriage return. -/
structure LineAt (text : List Char) (i : ℕ) (before line after : List Char) : Prop where
  text_eq : text = before ++ (line ++ after)
  count_eq : before.count '\n' = i
  begins : before = [] ∨ ∃ b, before = b ++ ['\n']
  not_mem : '\n' ∉ line
  ends : (∃ rest, after = '\r' :: rest ∧ (rest = [] ∨ rest.head? = some '\n')) ∨
    line.getLast? ≠ some '\r' ∧ (after = [] ∨ after.head? = some '\n')

theorem LineAt.text_eq_parts (h : LineAt text i before line after) (hparts : line = head ++ (token ++ tail)) :
    text = (before ++ head) ++ (token ++ (tail ++ after)) := by
  rw [h.text_eq, hparts]
  simp only [List.append_assoc]

theorem exists_lineAt (h : HasLine text i line) : ∃ before after, LineAt text i before line after := by
  obtain ⟨body, ⟨before, after, rfl, hcount, hbegins, hbody, hafter⟩, rfl | ⟨rfl, hlast⟩⟩ := h
  · refine ⟨before, '\r' :: after, by simp, hcount, hbegins, fun hmem => hbody (List.mem_append_left _ hmem), ?_⟩
    exact .inl ⟨after, rfl, hafter.symm.imp_left And.left⟩
  · exact ⟨before, after, rfl, hcount, hbegins, hbody, .inr ⟨hlast, hafter.symm.imp_left And.left⟩⟩

/-- Cutting behind a line feed cuts no piece, and leaves as many pieces in front as line feeds. -/
theorem pieces_append_of_begins (h : before = [] ∨ ∃ b, before = b ++ ['\n']) (rest : List Char) :
    pieces (before ++ rest) = pieces before ++ pieces rest ∧ (pieces before).length = before.count '\n' := by
  obtain rfl | ⟨b, rfl⟩ := h
  · exact ⟨rfl, rfl⟩
  · induction b with
    | nil => exact ⟨rfl, rfl⟩
    | cons c b ih =>
      obtain ⟨happend, hlength⟩ := ih
      rw [List.cons_append, List.cons_append, pieces, pieces, happend, List.count_cons]
      by_cases hc : c = '\n'
      · rw [if_pos hc, if_pos hc, hc, ← hlength]
        exact ⟨rfl, rfl⟩
      · -- the piece that `c` is put in front of is one of those before the cut
        obtain ⟨p, ps, hp⟩ := List.exists_cons_of_ne_nil (mt pieces_eq_nil_iff.mp (List.concat_ne_nil '\n' b))
        rw [if_neg hc, if_neg hc, ← hlength, hp]
        simp [hc]

theorem linesFrom_append (offset : ℕ) (ps qs : List (List Char)) :
    linesFrom offset (ps ++ qs) = linesFrom offset ps ++ linesFrom (offset + byteLength ps.flatten) qs := by
  induction ps generalizing offset with
  | nil => rfl
  | cons p ps ih => simp only [List.cons_append, linesFrom, ih, List.flatten_cons, byteLength_append, Nat.add_assoc]

theorem length_linesFrom (offset : ℕ) (ps : List (List Char)) : (linesFrom offset ps).length = ps.length := by
  induction ps generalizing offset with
  | nil => rfl
  | cons p ps ih => rw [linesFrom, List.length_cons, ih, List.length_cons]

theorem offset_of_getElem?_linesFrom_zero {offset : ℕ} {ps : List (List Char)} {source : Line}
    (h : (linesFrom offset ps)[0]? = some source) : source.offset = offset := by
  cases ps with
  | nil => cases h
  | cons p ps => cases h; rfl

/-- The offset of a line counts the bytes before it. -/
theorem offset_of_lineAt (h : LineAt text i before line after) {source : Line}
    (hsource : (lines text)[i]? = some source) : source.offset = byteLength before := by
  obtain ⟨hpieces, hlength⟩ := pieces_append_of_begins h.begins (line ++ after)
  have hfirst : (linesFrom 0 (pieces before)).length = i := by rw [length_linesFrom, hlength, h.count_eq]
  rw [lines, h.text_eq, hpieces, linesFrom_append, flatten_pieces, Nat.zero_add,
    List.getElem?_append_right hfirst.le, hfirst, Nat.sub_self] at hsource
  exact offset_of_getElem?_linesFrom_zero hsource

end Text

namespace Report

open Text

variable {text line head token tail : List Char} {f : Finding}

/-! ## Columns that are on the line -/

/-- A column that is on the line counts the code units in front of it; behind the line it counts more. -/
theorem min_utf16Column (h : (utf16 line).length < UInt32.size) (n : ℕ) :
    min (utf16Column line n).toNat (utf16 line).length = (utf16 (line.take n)).length := by
  have hsize : UInt32.size = 4294967296 := rfl
  have hle := units16_take_le line n
  rw [length_utf16] at h
  rw [toNat_utf16Column_eq, length_utf16, length_utf16]
  rcases le_total line.length n with hn | hn
  · -- the column stops at the largest coordinate, but not before the end of the line
    rw [List.take_of_length_le hn]
    omega
  · omega

/-- A part of a line has the code units that are in a range and on the line; so has what stands in front of it. -/
structure Selected (range : Range) (line head token : List Char) : Prop where
  head_length : (utf16 head).length = min range.start.character.toNat (utf16 line).length
  length : (utf16 token).length =
    min range.stop.character.toNat (utf16 line).length - min range.start.character.toNat (utf16 line).length
  units : utf16 token = ((utf16 line).take range.stop.character.toNat).drop range.start.character.toNat

/-! ## Spans -/

/-- The parts of a line in front of a token, in it and behind it. -/
theorem exists_parts (line : List Char) (col : Coord) : ∃ head token tail, line = head ++ (token ++ tail) ∧
    line.take (tokenChars line col).1 = head ∧ line.take (tokenChars line col).2 = head ++ token := by
  have hle := (tokenChars_bounds line col).2.1
  generalize (tokenChars line col).1 = start at hle ⊢
  generalize (tokenChars line col).2 = stop at hle ⊢
  have hstop : line.take start ++ (line.take stop).drop start = line.take stop := by
    rw [← min_eq_left hle, ← List.take_take, min_eq_left hle, List.take_append_drop]
  refine ⟨line.take start, (line.take stop).drop start, line.drop stop, ?_, rfl, hstop.symm⟩
  rw [← List.append_assoc, hstop, List.take_append_drop]

theorem selected_of_parts (hzero : f.line ≠ 0) (h : HasLine text (f.line.toNat - 1) line)
    (hparts : line = head ++ (token ++ tail)) (hhead : line.take (tokenChars line f.col).1 = head)
    (htoken : line.take (tokenChars line f.col).2 = head ++ token) (hunits : (utf16 line).length < UInt32.size) :
    Selected (range f text) line head token := by
  have hstart := min_utf16Column hunits (tokenChars line f.col).1
  have hstop := min_utf16Column hunits (tokenChars line f.col).2
  rw [hhead] at hstart
  rw [htoken, utf16_append] at hstop
  rw [range_of_hasLine hzero h]
  refine ⟨hstart.symm, ?_, ?_⟩
  · rw [hstart, hstop, List.length_append, Nat.add_sub_cancel_left]
  · have hline : utf16 line = utf16 head ++ (utf16 token ++ utf16 tail) := by
      rw [hparts, utf16_append, utf16_append]
    rw [hline] at hstart hstop ⊢
    exact (drop_take_of_min hstart hstop).symm

/-- On a line a span has the bytes of a token of the line, behind the characters before the finding's column. -/
theorem byteSpan_of_hasLine (hzero : f.line ≠ 0) (h : HasLine text (f.line.toNat - 1) line) :
    ∃ before head token tail after, LineAt text (f.line.toNat - 1) before line after ∧
      line = head ++ (token ++ tail) ∧ head = line.take (f.col.toNat - 1) ∧
      byteSpan text f = (byteLength (before ++ head), byteLength (before ++ head ++ token)) ∧
      ((utf16 line).length < UInt32.size → Selected (range f text) line head token) := by
  obtain ⟨before, after, hat⟩ := exists_lineAt h
  obtain ⟨head, token, tail, hparts, hhead, htoken⟩ := exists_parts line f.col
  refine ⟨before, head, token, tail, after, hat, hparts, hhead.symm, ?_,
    selected_of_parts hzero h hparts hhead htoken⟩
  obtain ⟨source, hsource, hline⟩ := Option.map_eq_some_iff.mp (line?_text_eq_some_iff.mpr ⟨hzero, h⟩)
  have hoffset : source.offset = byteLength before := by
    rw [line?, if_neg hzero] at hsource
    exact offset_of_lineAt hat hsource
  rw [byteSpan, hsource]
  dsimp only
  rw [hline, hhead, htoken, hoffset, ← byteLength_append, ← byteLength_append, List.append_assoc]

theorem byteSpan_of_no_line (h : f.line = 0 ∨ ∀ line, ¬ HasLine text (f.line.toNat - 1) line) :
    byteSpan text f = (byteLength text, byteLength text) := by
  rw [byteSpan, line?_eq_none h]

/-- **Spans and ranges agree.**  A span can be cut out of the source.  What is cut out stands on the finding's line, in
front of the terminator; if that line is not too long, it has the code units that are in the finding's range and on the
line.  Without the line, the span is empty and at the end of the source. -/
theorem byteSpan_selects_range (source : String) (f : Finding) :
    let text := source.toList
    let start := (byteSpan text f).1
    let stop := (byteSpan text f).2
    Cuts source start stop ∧
    (∀ line, f.line ≠ 0 → HasLine text (f.line.toNat - 1) line → ∃ before head token tail after,
      LineAt text (f.line.toNat - 1) before line after ∧ line = head ++ (token ++ tail) ∧
      start = byteLength (before ++ head) ∧ stop = byteLength (before ++ head ++ token) ∧
      String.Pos.Raw.extract source ⟨start⟩ ⟨stop⟩ = String.ofList token ∧
      ((utf16 line).length < UInt32.size → Selected (range f text) line head token)) ∧
    ((f.line = 0 ∨ ∀ line, ¬ HasLine text (f.line.toNat - 1) line) →
      start = source.utf8ByteSize ∧ stop = source.utf8ByteSize) := by
  refine ⟨?_, fun line hzero hline => ?_, fun hline => ?_⟩
  · by_cases hline : f.line ≠ 0 ∧ ∃ line, HasLine source.toList (f.line.toNat - 1) line
    · obtain ⟨hzero, line, hline⟩ := hline
      obtain ⟨before, head, token, tail, after, hat, hparts, -, hspan, -⟩ := byteSpan_of_hasLine hzero hline
      rw [hspan]
      exact cuts_byteLength (hat.text_eq_parts hparts)
    · have hspan := byteSpan_of_no_line (by rwa [not_and_or, not_not, not_exists] at hline)
      have hcut := @cuts_byteLength source source.toList [] [] (by simp)
      rw [List.append_nil] at hcut
      rwa [hspan]
  · obtain ⟨before, head, token, tail, after, hat, hparts, -, hspan, hselected⟩ := byteSpan_of_hasLine hzero hline
    have hextract := extract_byteLength (hat.text_eq_parts hparts)
    rw [hspan]
    exact ⟨before, head, token, tail, after, hat, hparts, rfl, rfl, hextract, hselected⟩
  · rw [byteSpan_of_no_line hline]
    exact ⟨byteLength_toList source, byteLength_toList source⟩

/-- A surrogate pair of four bytes between a blank and a tag, on the second line of a text; and a line that is not
there. -/
theorem byteSpan_selects_range_surrogates :
    let source := "x\r\né 😀<isprint>\r\n"
    let line := "é 😀<isprint>".toList
    let f := Finding.error "id" "message" 2 3 "<"
    let g := Finding.error "id" "message" 3 1 "<"
    byteSpan source.toList f = (6, 10) ∧ range f source.toList = ⟨⟨1, 2⟩, ⟨1, 4⟩⟩ ∧ Cuts source 6 10 ∧
    (∃ head token, String.Pos.Raw.extract source ⟨6⟩ ⟨10⟩ = String.ofList token ∧ (utf16 head).length = 2 ∧
      utf16 token = ((utf16 line).take 4).drop 2) ∧
    byteSpan source.toList g = (source.utf8ByteSize, source.utf8ByteSize) := by
  intro source line f g
  have hspan : byteSpan source.toList f = (6, 10) := by decide
  have hrange : range f source.toList = ⟨⟨1, 2⟩, ⟨1, 4⟩⟩ := by decide
  have hline : HasLine source.toList 1 line :=
    ⟨line ++ ['\r'], ⟨"x\r\n".toList, ['\n'], by decide, rfl, .inr ⟨['x', '\r'], rfl⟩, by decide, .inl rfl⟩, .inl rfl⟩
  obtain ⟨hcuts, hon, -⟩ := byteSpan_selects_range source f
  obtain ⟨-, -, hoff⟩ := byteSpan_selects_range source g
  obtain ⟨before, head, token, tail, after, -, -, -, -, hextract, hselected⟩ := hon line (by decide) hline
  have hunits := hselected (by decide)
  rw [hspan] at hcuts hextract
  rw [hrange] at hunits
  have hmissing : ∀ line, ¬ HasLine source.toList 2 line := by
    intro line h
    have hsome := line?_text_eq_some_iff.mpr ⟨(by decide : g.line ≠ 0), h⟩
    have hnone : line? source.toList g.line = none := by decide
    rw [hnone] at hsome
    cases hsome
  obtain ⟨hstart, hstop⟩ := hoff (.inr hmissing)
  exact ⟨hspan, hrange, hcuts, ⟨head, token, hextract, hunits.head_length, hunits.units⟩, Prod.ext hstart hstop⟩

end Report

end TagLint

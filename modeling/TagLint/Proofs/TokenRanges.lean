import TagLint.Proofs.RangeBounds

/-!
# Token ranges — which code units of its line a finding is about

An editor counts the UTF-16 code units of a line, a finding the characters.

* `HasLine text i line`: the text has a line behind `i` line feeds; `line?_text_eq_some_iff` says that `line?` finds it.
* `TokenAt line n before token after`: a token begins behind the first `n` characters of a line, and ends before the
  next blank or `<`.
* **`range_exact`**: between the ends of a range stand the code units of the token, all of them and no other.
-/

namespace TagLint

namespace Text

variable {text cs body line : List Char} {c : Char} {i : ℕ}

/-! ## Lines -/

/-- Behind so many line feeds stands a line, which ends at the next line feed or with the text.  Behind the last line
feed stands no empty line. -/
def HasBody (text : List Char) (i : ℕ) (body : List Char) : Prop :=
  ∃ before after, text = before ++ (body ++ after) ∧ before.count '\n' = i ∧
    (before = [] ∨ ∃ b, before = b ++ ['\n']) ∧ '\n' ∉ body ∧ (after.head? = some '\n' ∨ after = [] ∧ body ≠ [])

/-- A line, without a carriage return at its end. -/
def HasLine (text : List Char) (i : ℕ) (line : List Char) : Prop :=
  ∃ body, HasBody text i body ∧ (body = line ++ ['\r'] ∨ body = line ∧ line.getLast? ≠ some '\r')

theorem pieces_of_not_mem (h : '\n' ∉ cs) (hne : cs ≠ []) : pieces cs = [cs] := by
  induction cs with
  | nil => exact absurd rfl hne
  | cons c cs ih =>
    obtain ⟨hc, hcs⟩ := not_or.mp (mt List.mem_cons.mpr h)
    rw [pieces, if_neg fun same => hc same.symm]
    cases cs with
    | nil => rfl
    | cons d ds => rw [ih hcs (List.cons_ne_nil d ds)]

theorem pieces_append_line_feed (h : '\n' ∉ body) (rest : List Char) :
    pieces (body ++ '\n' :: rest) = (body ++ ['\n']) :: pieces rest := by
  induction body with
  | nil => rw [List.nil_append, pieces, if_pos rfl, List.nil_append]
  | cons c body ih =>
    obtain ⟨hc, hbody⟩ := not_or.mp (mt List.mem_cons.mpr h)
    rw [List.cons_append, pieces, if_neg fun same => hc same.symm, ih hbody]
    rfl

theorem dropEnd_concat (c : Char) (cs : List Char) : dropEnd c (cs ++ [c]) = cs := by
  rw [dropEnd, List.getLast?_concat, if_pos rfl, List.dropLast_concat]

theorem dropEnd_eq_iff : dropEnd c body = line ↔ body = line ++ [c] ∨ body = line ∧ line.getLast? ≠ some c := by
  constructor
  · rintro rfl
    unfold dropEnd
    split_ifs with hlast
    · obtain ⟨ds, rfl⟩ := List.getLast?_eq_some_iff.mp hlast
      exact .inl (by rw [List.dropLast_concat])
    · exact .inr ⟨rfl, hlast⟩
  · rintro (rfl | ⟨rfl, hlast⟩)
    · exact dropEnd_concat c line
    · rw [dropEnd, if_neg hlast]

theorem dropEnd_of_not_mem (h : c ∉ cs) : dropEnd c cs = cs :=
  dropEnd_eq_iff.mpr (.inr ⟨rfl, fun hlast => h (List.mem_of_getLast? hlast)⟩)

/-- The text up to its first line feed and behind it. -/
theorem not_mem_or_exists_rest (text : List Char) :
    '\n' ∉ text ∨ ∃ first rest, text = first ++ '\n' :: rest ∧ '\n' ∉ first := by
  by_cases h : '\n' ∈ text
  · exact .inr (List.eq_append_cons_of_mem h)
  · exact .inl h

theorem getElem?_pieces_of_not_mem (h : '\n' ∉ text) :
    (pieces text)[i]?.map (dropEnd '\n') = some body ↔ i = 0 ∧ text = body ∧ body ≠ [] := by
  by_cases hne : text = []
  · rw [hne]
    simp [pieces]
  · rw [pieces_of_not_mem h hne]
    cases i with
    | zero =>
      rw [List.getElem?_cons_zero, Option.map_some, dropEnd_of_not_mem h, Option.some.injEq]
      exact ⟨fun same => ⟨rfl, same, same ▸ hne⟩, fun same => same.2.1⟩
    | succ i => simp

theorem hasBody_of_getElem? (h : (pieces text)[i]?.map (dropEnd '\n') = some body) : HasBody text i body := by
  induction i generalizing text with
  | zero =>
    obtain hnone | ⟨first, rest, rfl, hfirst⟩ := not_mem_or_exists_rest text
    · obtain ⟨-, rfl, hne⟩ := (getElem?_pieces_of_not_mem hnone).mp h
      exact ⟨[], [], by simp, rfl, .inl rfl, hnone, .inr ⟨rfl, hne⟩⟩
    · rw [pieces_append_line_feed hfirst] at h
      obtain rfl : first = body := by simpa [dropEnd_concat] using h
      exact ⟨[], '\n' :: rest, rfl, rfl, .inl rfl, hfirst, .inl rfl⟩
  | succ i ih =>
    obtain hnone | ⟨first, rest, rfl, hfirst⟩ := not_mem_or_exists_rest text
    · exact absurd ((getElem?_pieces_of_not_mem hnone).mp h).1 (Nat.succ_ne_zero i)
    · rw [pieces_append_line_feed hfirst, List.getElem?_cons_succ] at h
      obtain ⟨before, after, rfl, hcount, hbefore, hbody, hafter⟩ := ih h
      refine ⟨first ++ '\n' :: before, after, by simp, ?_, .inr ?_, hbody, hafter⟩
      · rw [List.count_append, List.count_eq_zero.mpr hfirst, List.count_cons_self, hcount, Nat.zero_add]
      · rcases hbefore with rfl | ⟨b, rfl⟩
        · exact ⟨first, rfl⟩
        · exact ⟨first ++ '\n' :: b, by simp⟩

theorem getElem?_of_hasBody (h : HasBody text i body) : (pieces text)[i]?.map (dropEnd '\n') = some body := by
  obtain ⟨before, after, rfl, hcount, hbefore, hbody, hafter⟩ := h
  induction i generalizing before with
  | zero =>
    have hnone : '\n' ∉ before := List.count_eq_zero.mp hcount
    obtain rfl : before = [] := by
      rcases hbefore with rfl | ⟨b, rfl⟩
      · rfl
      · simp at hnone
    rw [List.nil_append]
    rcases hafter with hfeed | ⟨rfl, hne⟩
    · obtain ⟨rest, rfl⟩ := List.head?_eq_some_iff.mp hfeed
      rw [pieces_append_line_feed hbody, List.getElem?_cons_zero, Option.map_some, dropEnd_concat]
    · rw [List.append_nil]
      exact (getElem?_pieces_of_not_mem hbody).mpr ⟨rfl, rfl, hne⟩
  | succ i ih =>
    have hmem : '\n' ∈ before := List.count_pos_iff.mp (by omega)
    obtain ⟨first, later, rfl, hfirst⟩ := List.eq_append_cons_of_mem hmem
    rw [List.count_append, List.count_eq_zero.mpr hfirst, List.count_cons_self, Nat.zero_add] at hcount
    rw [List.append_assoc, List.cons_append, pieces_append_line_feed hfirst, List.getElem?_cons_succ]
    refine ih later (Nat.succ_inj.mp hcount) ?_
    rcases List.eq_nil_or_concat later with rfl | ⟨ds, d, rfl⟩
    · exact .inl rfl
    · obtain h | ⟨b, hb⟩ := hbefore
      · simp at h
      · have hends : (first ++ '\n' :: ds) ++ [d] = b ++ ['\n'] := by simpa using hb
        obtain rfl : d = '\n' := List.singleton_inj.mp (List.append_inj_right' hends rfl)
        exact .inr ⟨ds, by simp⟩

/-- The pieces of a text are its lines. -/
theorem getElem?_pieces_iff : (pieces text)[i]?.map (dropEnd '\n') = some body ↔ HasBody text i body :=
  ⟨hasBody_of_getElem?, getElem?_of_hasBody⟩

theorem line?_text_eq_some_iff {number : Coord} : (line? text number).map Line.text = some line ↔
    number ≠ 0 ∧ HasLine text (number.toNat - 1) line := by
  by_cases hzero : number = 0
  · simp [line?, hzero]
  · have htext : (line? text number).map Line.text =
        ((pieces text)[number.toNat - 1]?.map (dropEnd '\n')).map (dropEnd '\r') := by
      rw [line?, if_neg hzero, lines, getElem?_linesFrom, Option.map_map]
      rfl
    rw [htext, Option.map_eq_some_iff, and_iff_right hzero]
    simp only [getElem?_pieces_iff, dropEnd_eq_iff]
    rfl

theorem line?_eq_none {number : Coord} (h : number = 0 ∨ ∀ line, ¬ HasLine text (number.toNat - 1) line) :
    line? text number = none := by
  cases hsource : line? text number with
  | none => rfl
  | some source =>
    obtain ⟨hzero, hline⟩ := line?_text_eq_some_iff.mp (congrArg (Option.map Line.text) hsource)
    rcases h with h | h
    · exact absurd h hzero
    · exact absurd hline (h _)

/-! ## Code units -/

/-- The UTF-16 code units of a character: above the basic plane a surrogate pair. -/
def utf16Char (c : Char) : List UInt16 :=
  if c.toNat < 0x10000 then [c.toNat.toUInt16]
  else [(0xD800 + (c.toNat - 0x10000) / 0x400).toUInt16, (0xDC00 + (c.toNat - 0x10000) % 0x400).toUInt16]

/-- The UTF-16 code units of a text. -/
def utf16 (cs : List Char) : List UInt16 := cs.flatMap utf16Char

theorem utf16_append (as bs : List Char) : utf16 (as ++ bs) = utf16 as ++ utf16 bs := List.flatMap_append

theorem length_utf16 (cs : List Char) : (utf16 cs).length = units16 cs := by
  induction cs with
  | nil => rfl
  | cons c cs ih =>
    have hchar : (utf16Char c).length = unitSize c := by
      unfold utf16Char unitSize
      split_ifs <;> rfl
    rw [utf16, List.flatMap_cons, List.length_append, hchar, units16_cons, ← ih, utf16]

end Text

namespace Report

open Text

variable {text line : List Char} {f : Finding}

/-! ## Tokens -/

/-- A token begins behind the first `n` characters of a line.  It has a first character; the others are no blanks and
no `<`, and one of these or nothing comes after it. -/
structure TokenAt (line : List Char) (n : ℕ) (before token after : List Char) : Prop where
  line_eq : line = before ++ (token ++ after)
  length_eq : before.length = n
  exists_head : ∃ c rest, token = c :: rest ∧ ∀ d ∈ rest, Text.isBlank d = false ∧ d ≠ '<'
  ends : ∀ d, after.head? = some d → Text.isBlank d = true ∨ d = '<'

theorem findIdx?_getD_length (p : Char → Bool) (cs : List Char) :
    (cs.findIdx? p).getD cs.length = (cs.takeWhile fun c => !p c).length := by
  induction cs with
  | nil => rfl
  | cons c cs ih =>
    rw [List.findIdx?_cons, List.takeWhile_cons]
    cases p c with
    | true => rfl
    | false =>
      simp only [Bool.not_false, if_true, List.length_cons, ← ih]
      cases cs.findIdx? p <;> rfl

theorem tokenChars_eq (line : List Char) (col : Coord) : tokenChars line col = (col.toNat - 1,
    max (((line.drop (col.toNat - 1 + 1)).findIdx? endsToken).elim line.length (col.toNat - 1 + 1 + ·))
      (col.toNat - 1)) := by
  rw [tokenChars]
  cases (line.drop (col.toNat - 1 + 1)).findIdx? endsToken <;> rfl

/-- On a line the bounds of a token are those of its characters. -/
theorem exists_tokenAt (col : Coord) (h : col.toNat - 1 < line.length) : ∃ before token after,
    TokenAt line (col.toNat - 1) before token after ∧ (tokenChars line col).1 = before.length ∧
      (tokenChars line col).2 = (before ++ token).length := by
  rw [tokenChars_eq]
  generalize col.toNat - 1 = n at h ⊢
  obtain ⟨c, tail, hdrop⟩ := List.exists_cons_of_ne_nil (List.length_pos_iff.mp (by rw [List.length_drop]; omega) :
    line.drop n ≠ [])
  have htail : line.drop (n + 1) = tail := by rw [← List.tail_drop, hdrop, List.tail_cons]
  rw [htail]
  have hline : line = line.take n ++ c :: tail := by rw [← hdrop, List.take_append_drop]
  have hbefore : (line.take n).length = n := List.length_take_of_le h.le
  have hstop : (tail.findIdx? endsToken).elim line.length (n + 1 + ·) =
      n + 1 + (tail.takeWhile fun c => !endsToken c).length := by
    have hlen : line.length = n + 1 + tail.length := by rw [← htail, List.length_drop]; omega
    rw [← findIdx?_getD_length]
    cases tail.findIdx? endsToken with
    | none => exact hlen
    | some i => rfl
  refine ⟨line.take n, c :: tail.takeWhile fun c => !endsToken c, tail.dropWhile fun c => !endsToken c,
    ⟨?_, hbefore, ⟨_, _, rfl, fun d hd => ?_⟩, fun d hd => ?_⟩, hbefore.symm, ?_⟩
  · rw [List.cons_append, List.takeWhile_append_dropWhile]
    exact hline
  · simpa [endsToken] using List.mem_takeWhile_imp hd
  · have hfirst := List.head?_dropWhile_not (fun c => !endsToken c) tail
    rw [hd] at hfirst
    have hends : endsToken d := by simpa using hfirst
    simpa [endsToken] using hends
  · rw [hstop, List.length_append, hbefore, List.length_cons]
    omega

/-! ## Columns -/

/-- A column counts so many characters of a line: the code units of those that there are, and one for each that is past
the end. -/
def Counts (line : List Char) (chars : ℕ) (column : Coord) : Prop :=
  ∃ past, chars = (line.take chars).length + past ∧
    column.toNat = min ((utf16 (line.take chars)).length + past) (UInt32.size - 1)

theorem counts_utf16Column (line : List Char) (chars : ℕ) : Counts line chars (utf16Column line chars) := by
  refine ⟨chars - line.length, ?_, ?_⟩
  · rw [List.length_take]
    omega
  · rw [toNat_utf16Column_eq, length_utf16]
    rfl

/-- The code units between the ends of a part of a line are those of the part. -/
theorem utf16_between (before token after : List Char) :
    ((utf16 (before ++ (token ++ after))).drop (utf16 before).length).take
      ((utf16 (before ++ token)).length - (utf16 before).length) = utf16 token := by
  rw [utf16_append, utf16_append, utf16_append, List.drop_left, List.length_append, Nat.add_sub_cancel_left,
    List.take_left]

/-- The column behind a part of a line that is not too long. -/
theorem toNat_utf16Column_length {as : List Char} (bs : List Char) (h : (utf16 (as ++ bs)).length < UInt32.size) :
    (utf16Column (as ++ bs) as.length).toNat = (utf16 as).length := by
  rw [length_utf16, units16_append] at h
  rw [length_utf16, toNat_utf16Column (Nat.lt_of_le_of_lt (Nat.le_add_right _ _) h)]

/-- The columns of a token are counted in code units. -/
theorem exists_token_columns (col : Coord) (h : col.toNat - 1 < line.length)
    (hunits : (utf16 line).length < UInt32.size) :
    ∃ before token after, TokenAt line (col.toNat - 1) before token after ∧
      (utf16Column line (tokenChars line col).1).toNat = (utf16 before).length ∧
      (utf16Column line (tokenChars line col).2).toNat = (utf16 (before ++ token)).length := by
  obtain ⟨before, token, after, htoken, hstart, hstop⟩ := exists_tokenAt col h
  refine ⟨before, token, after, htoken, ?_, ?_⟩
  · obtain rfl := htoken.line_eq
    rw [hstart]
    exact toNat_utf16Column_length _ hunits
  · obtain rfl := htoken.line_eq.trans (List.append_assoc before token after).symm
    rw [hstop]
    exact toNat_utf16Column_length after hunits

/-! ## Ranges -/

theorem range_of_hasLine (hzero : f.line ≠ 0) (h : HasLine text (f.line.toNat - 1) line) : range f text =
    ⟨⟨.satPred f.line, utf16Column line (tokenChars line f.col).1⟩,
      ⟨.satPred f.line, utf16Column line (tokenChars line f.col).2⟩⟩ := by
  obtain ⟨source, hsource, rfl⟩ := Option.map_eq_some_iff.mp (line?_text_eq_some_iff.mpr ⟨hzero, h⟩)
  rw [range, hsource]

theorem range_of_no_line (h : f.line = 0 ∨ ∀ line, ¬ HasLine text (f.line.toNat - 1) line) :
    range f text = ⟨⟨.satPred f.line, .satPred f.col⟩, ⟨.satPred f.line, .satPred f.col⟩⟩ := by
  rw [range, line?_eq_none h]

/-- **Ranges are exact.**  The ends of a range lie on one line, in order, and nothing is subtracted on the way to their
columns.  On a line that is not too long and has the finding's column, the code units between them are those of the
token there; so no end falls between the surrogates of a pair.  Without the line, the range is empty. -/
theorem range_exact (text : List Char) (f : Finding) :
    let start := (range f text).start
    let stop := (range f text).stop
    (start.line.toNat = max f.line.toNat 1 - 1 ∧ stop.line.toNat = max f.line.toNat 1 - 1 ∧
      start.character.toNat ≤ stop.character.toNat) ∧
    (∀ line, f.line ≠ 0 → HasLine text (f.line.toNat - 1) line →
      (∃ first last, first = max f.col.toNat 1 - 1 ∧ first ≤ last ∧ Counts line first start.character ∧
        Counts line last stop.character) ∧
      ((utf16 line).length < UInt32.size → max f.col.toNat 1 ≤ line.length → ∃ before token after,
        TokenAt line (max f.col.toNat 1 - 1) before token after ∧
        ((utf16 line).drop start.character.toNat).take (stop.character.toNat - start.character.toNat) = utf16 token ∧
        start.character.toNat = (utf16 before).length ∧ stop.character.toNat = (utf16 (before ++ token)).length)) ∧
    ((f.line = 0 ∨ ∀ line, ¬ HasLine text (f.line.toNat - 1) line) →
      start = stop ∧ start.character.toNat = f.col.toNat - 1) := by
  have hfirst (n : ℕ) : max n 1 - 1 = n - 1 := by omega
  simp only [hfirst]
  refine ⟨?_, fun line hzero hline => ?_, fun hline => ?_⟩
  · by_cases hline : f.line ≠ 0 ∧ ∃ line, HasLine text (f.line.toNat - 1) line
    · obtain ⟨hzero, line, hline⟩ := hline
      rw [range_of_hasLine hzero hline]
      exact ⟨Coord.toNat_satPred _, Coord.toNat_satPred _, utf16Column_mono line (tokenChars_bounds _ _).2.1⟩
    · rw [range_of_no_line (by rwa [not_and_or, not_not, not_exists] at hline)]
      exact ⟨Coord.toNat_satPred _, Coord.toNat_satPred _, le_refl _⟩
  · rw [range_of_hasLine hzero hline]
    refine ⟨⟨_, _, rfl, (tokenChars_bounds line f.col).2.1, counts_utf16Column _ _, counts_utf16Column _ _⟩,
      fun hunits hcol => ?_⟩
    obtain ⟨before, token, after, htoken, hstart, hstop⟩ := exists_token_columns f.col (by omega) hunits
    refine ⟨before, token, after, htoken, ?_, hstart, hstop⟩
    rw [hstart, hstop, htoken.line_eq]
    exact utf16_between before token after
  · rw [range_of_no_line hline]
    exact ⟨rfl, Coord.toNat_satPred _⟩

/-- A token of two surrogate pairs and a letter, on the second line of a text. -/
theorem range_exact_surrogates :
    let text := "x\n 😀𝒞x<b\r\n".toList
    let line := " 😀𝒞x<b".toList
    let f := Finding.error "id" "message" 2 2 "<"
    range f text = ⟨⟨1, 1⟩, ⟨1, 6⟩⟩ ∧ ∃ before token after, TokenAt line 1 before token after ∧
      ((utf16 line).drop 1).take 5 = utf16 token := by
  intro text line f
  have hrange : range f text = ⟨⟨1, 1⟩, ⟨1, 6⟩⟩ := by decide
  have hline : HasLine text 1 line :=
    ⟨line ++ ['\r'], ⟨"x\n".toList, ['\n'], rfl, rfl, .inr ⟨['x'], rfl⟩, by decide, .inl rfl⟩, .inl rfl⟩
  obtain ⟨-, hexact, -⟩ := range_exact text f
  obtain ⟨before, token, after, htoken, hunits, -⟩ := (hexact line (by decide) hline).2 (by decide) (by decide)
  rw [hrange] at hunits
  exact ⟨hrange, before, token, after, htoken, hunits⟩

end Report

end TagLint

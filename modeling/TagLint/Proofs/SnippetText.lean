import Mathlib.Data.List.SplitBy
import TagLint.Proofs.LineTiling
import TagLint.Proofs.SplitText
import TagLint.Proofs.TokenSlices
import TagLint.Report.Snippet

/-!
# Snippet texts — what the block of a finding says

A block is drawn cell by cell and then painted.  Cells of one colour are painted together (`paint_ofText_append`), so
the text of a block can be read off its lines.

* `titleText`, `placeText`: the rule and the message of a finding, and its place.
* `rowAt_of_hasLine`: the row of a span that is on a line is that line.
* `render_shows`: a block says all this, and the place is the one of the finding.
-/

namespace TagLint.Report

open Text

variable {text line : List Char} {i : ℕ} {f : Finding} {style : Style}

/-! ## Painting -/

namespace Cells

theorem paint_nil (style : Style) : paint style [] = "" := rfl

/-- A text is painted on its own when what comes next has another colour. -/
theorem paint_ofText_append (style : Style) (ink : Ink) (text : List Char) {line : Cells}
    (h : ∀ c ∈ line.head?, c.ink ≠ ink) :
    paint style (ofText ink text ++ line) = style.paint ink (String.ofList text) ++ paint style line := by
  by_cases htext : text = []
  · rw [htext]
    show paint style line = style.paint ink "" ++ paint style line
    rw [Style.paint, if_pos (.inr (.inr rfl)), String.empty_append]
  · have hne : ofText ink text ≠ [] := mt List.map_eq_nil_iff.mp htext
    have hsame : ∀ c ∈ ofText ink text, c.ink = ink := by
      intro c hc
      obtain ⟨a, -, rfl⟩ := List.mem_map.mp hc
      rfl
    have hrun : (ofText ink text).splitBy (fun a b => a.ink == b.ink) = [ofText ink text] := by
      refine List.splitBy_of_isChain hne (List.Pairwise.isChain (List.pairwise_of_forall_mem_list fun a ha b hb => ?_))
      rw [hsame a ha, hsame b hb]
      exact beq_self_eq_true ink
    have hcut : (ofText ink text ++ line).splitBy (fun a b => a.ink == b.ink) =
        ofText ink text :: line.splitBy (fun a b => a.ink == b.ink) := by
      rw [List.splitBy_append, hrun, List.singleton_append]
      intro a ha b hb
      rw [hsame a (List.mem_of_getLast? ha)]
      exact beq_false_of_ne (h b hb).symm
    have hhead : (((ofText ink text).head?.map (·.ink)).getD .none) = ink := by
      cases text with
      | nil => exact absurd rfl htext
      | cons c cs => rfl
    have hchars : (ofText ink text).map (·.char) = text := by
      rw [ofText, List.map_map]
      exact List.map_id text
    rw [paint, hcut, List.map_cons, String.join_cons, hhead, hchars]
    rfl

theorem paint_ofText (style : Style) (ink : Ink) (text : List Char) :
    paint style (ofText ink text) = style.paint ink (String.ofList text) := by
  have h : paint style (ofText ink text ++ []) = style.paint ink (String.ofList text) ++ paint style [] :=
    paint_ofText_append style ink text nofun
  rwa [List.append_nil, paint_nil, String.append_empty] at h

/-- Blanks have no colour. -/
theorem paint_blank_append (style : Style) (count : ℕ) {line : Cells} (h : ∀ c ∈ line.head?, c.ink ≠ .none) :
    paint style (blank count ++ line) = String.ofList (List.replicate count ' ') ++ paint style line := by
  have hblank : blank count = ofText .none (List.replicate count ' ') := by
    rw [ofText, List.map_replicate]
    rfl
  rw [hblank, paint_ofText_append style .none _ h, Style.paint, if_pos (.inr (.inl rfl))]

theorem head?_ofText_ne {ink ink' : Ink} (h : ink' ≠ ink) (text : List Char) :
    ∀ c ∈ (ofText ink' text).head?, c.ink ≠ ink := by
  intro c hc
  obtain ⟨a, -, rfl⟩ := List.mem_map.mp (List.mem_of_head? hc)
  exact h

end Cells

/-! ## The lines of a block -/

/-- Blanks. -/
def blanks (count : ℕ) : String := String.ofList (List.replicate count ' ')

/-- The rule of a finding, and its message line by line, each as a terminal shows it. -/
def titleText (style : Style) (f : Finding) : List String :=
  let label := "error[" ++ f.ruleId ++ "]"
  let shown (line : List Char) := String.ofList (showText line)
  match splitAt '\n' f.message.toList with
  | [] => []
  | first :: more =>
    (style.paint .error label ++ style.paint .bold (": " ++ shown first)) ::
      more.map fun line => blanks (widthOf label.toList + 2) ++ style.paint .bold (shown line)

/-- The path of a text and a place in it. -/
def placeText (style : Style) (gutter : ℕ) (path : String) (number column : ℕ) : String :=
  blanks gutter ++ style.paint .ruler "--> " ++ (path ++ ":" ++ toString number ++ ":" ++ toString column)

/-- A block of lines: the title of a finding, a place, and a source line with marks under it. -/
def IsBlock (style : Style) (path : String) (f : Finding) (number column : ℕ) (block : String) : Prop :=
  ∃ gutter code marks, block = String.intercalate "\n" (titleText style f ++
    [placeText style gutter path number column, blanks (gutter + 1) ++ style.paint .ruler "|", code, marks])

/-- The lines of a message are the pieces between its line feeds. -/
theorem splitAt_message (cs : List Char) :
    (if cs.isEmpty || cs.getLast? = some '\n' then (pieces cs).map (dropEnd '\n') ++ [[]]
      else (pieces cs).map (dropEnd '\n')) = splitAt '\n' cs := by
  induction cs using lines_induction with
  | nil => rfl
  | last body hbody hne =>
    have hlast : body.getLast? ≠ some '\n' := fun h => hbody (List.mem_of_getLast? h)
    rw [if_neg (by simp [hne, hlast]), pieces_of_not_mem hbody hne, List.map_singleton, dropEnd_of_not_mem hbody,
      splitAt_of_not_mem hbody]
  | feed body rest hbody ih =>
    have hend : ((body ++ '\n' :: rest).isEmpty || (body ++ '\n' :: rest).getLast? = some '\n') =
        (rest.isEmpty || rest.getLast? = some '\n') := by
      rcases List.eq_nil_or_concat rest with rfl | ⟨cs, c, rfl⟩
      · simp
      · have hmove : body ++ '\n' :: cs.concat c = (body ++ '\n' :: cs).concat c := by simp
        rw [hmove, List.concat_eq_append, List.concat_eq_append, List.getLast?_concat, List.getLast?_concat,
          List.isEmpty_eq_false_iff.mpr (List.concat_ne_nil c _), List.isEmpty_eq_false_iff.mpr (List.concat_ne_nil c _)]
    rw [hend, pieces_append_line_feed hbody, splitAt_append_sep, splitAt_of_not_mem hbody, ← ih, List.map_cons,
      dropEnd_concat]
    split_ifs
    · rfl
    · rfl

theorem paint_titleLines (style : Style) (f : Finding) :
    (titleLines f).map (Cells.paint style) = titleText style f := by
  have hlabel : "error[".toList ++ f.ruleId.toList ++ [']'] = ("error[" ++ f.ruleId ++ "]").toList := by
    simp only [String.toList_append]
    rfl
  have hfirst (label : String) (line : List Char) :
      (Cells.ofText .error label.toList ++ Cells.ofText .bold ([':', ' '] ++ showText line)).paint style =
        style.paint .error label ++ style.paint .bold (": " ++ String.ofList (showText line)) := by
    rw [Cells.paint_ofText_append style .error _ (Cells.head?_ofText_ne (by decide) _), Cells.paint_ofText,
      String.ofList_toList, String.ofList_append]
  have hmore (count : ℕ) (line : List Char) :
      (Cells.blank count ++ Cells.ofText .bold (showText line)).paint style =
        blanks count ++ style.paint .bold (String.ofList (showText line)) := by
    rw [Cells.paint_blank_append style count (Cells.head?_ofText_ne (by decide) _), Cells.paint_ofText, blanks]
  rw [titleLines, titleText]
  dsimp only
  rw [splitAt_message, hlabel]
  cases splitAt '\n' f.message.toList with
  | nil => rfl
  | cons first more =>
    dsimp only
    rw [List.map_cons, hfirst, List.map_map]
    exact congrArg _ (List.map_congr_left fun line _ => hmore _ line)

theorem paint_placeLine (style : Style) (gutter : ℕ) (path : String) (number column : ℕ) :
    (placeLine gutter path number column).paint style = placeText style gutter path number column := by
  have harrow (line : Cells) : ∀ c ∈ (Cells.ofText .ruler "--> ".toList ++ line).head?, c.ink ≠ .none := by
    intro c hc
    have hruler : c = ⟨'-', .ruler⟩ := (Option.some.inj hc).symm
    rw [hruler]
    decide
  have hnone (s : String) : style.paint .none s = s := if_pos (.inr (.inl rfl))
  rw [placeLine, List.append_assoc, Cells.paint_blank_append style gutter (harrow _),
    Cells.paint_ofText_append style .ruler _ (Cells.head?_ofText_ne (by decide) _), Cells.paint_ofText,
    String.ofList_toList, String.ofList_toList, hnone, placeText, blanks]
  simp only [String.append_assoc]

theorem paint_rule (style : Style) (gutter : ℕ) :
    (rule gutter).paint style = blanks (gutter + 1) ++ style.paint .ruler "|" := by
  have hrule : rule gutter = Cells.blank (gutter + 1) ++ Cells.ofText .ruler ['|'] := by
    simp [rule, Cells.write]
  rw [hrule, Cells.paint_blank_append style _ (Cells.head?_ofText_ne (by decide) _), Cells.paint_ofText, blanks]

/-! ## The row of a place -/

theorem rowsFrom_append (number offset : ℕ) (ps qs : List (List Char)) :
    rowsFrom number offset (ps ++ qs) =
      rowsFrom number offset ps ++ rowsFrom (number + ps.length) (offset + byteLength ps.flatten) qs := by
  induction ps generalizing number offset with
  | nil => rfl
  | cons p ps ih =>
    rw [List.cons_append, rowsFrom, rowsFrom, ih, List.flatten_cons, byteLength_append, List.length_cons]
    simp only [List.cons_append, Nat.add_assoc, Nat.add_comm 1]

/-- A row of some pieces ends with them. -/
theorem stop_le_of_mem_rowsFrom {number offset : ℕ} {ps : List (List Char)} {row : Row}
    (h : row ∈ rowsFrom number offset ps) : row.stop ≤ offset + byteLength ps.flatten := by
  induction ps generalizing number offset with
  | nil => cases h
  | cons p ps ih =>
    rw [List.flatten_cons, byteLength_append]
    rcases List.mem_cons.mp h with rfl | h
    · show offset + byteLength p ≤ _
      omega
    · have hle := ih h
      omega

theorem takeBytes_byteLength (as bs : List Char) : takeBytes (byteLength as) (as ++ bs) = as := by
  induction as with
  | nil =>
    cases bs with
    | nil => rfl
    | cons b bs =>
      rw [List.nil_append, byteLength_nil, takeBytes, if_neg (by have := b.utf8Size_pos; omega)]
  | cons a as ih =>
    rw [List.cons_append, byteLength_cons, takeBytes, if_pos (Nat.le_add_right _ _), Nat.add_sub_cancel_left, ih]

/-- A piece without a line feed is the last one. -/
theorem eq_nil_of_pieces_eq_cons {cs p : List Char} {ps : List (List Char)} (h : pieces cs = p :: ps) (hp : '\n' ∉ p) :
    ps = [] := by
  rcases not_mem_or_exists_rest cs with hcs | ⟨first, rest, rfl, hfirst⟩
  · have hne : cs ≠ [] := fun hnil => by
      rw [hnil] at h
      cases h
    rw [pieces_of_not_mem hcs hne] at h
    exact (List.cons.inj h).2.symm
  · rw [pieces_append_line_feed hfirst] at h
    obtain ⟨rfl, -⟩ := List.cons.inj h
    exact absurd (List.mem_append_right _ List.mem_cons_self) hp

theorem eq_nil_of_byteLength {cs : List Char} (h : byteLength cs = 0) : cs = [] := by
  cases cs with
  | nil => rfl
  | cons c cs =>
    have hpos := c.utf8Size_pos
    rw [byteLength_cons] at h
    omega

theorem dropEnd_isPrefix (c : Char) (cs : List Char) : dropEnd c cs <+: cs := by
  unfold dropEnd
  split_ifs
  · exact List.dropLast_prefix cs
  · exact List.prefix_rfl

/-- The piece of a line: the line with its terminator, without which it is the last piece.  A row leaves the terminator
out, except for a carriage return at the end of the text. -/
theorem exists_piece_of_lineAt {before after : List Char} (h : HasLine text i line)
    (hat : LineAt text i before line after) : ∃ p ps, pieces text = pieces before ++ p :: ps ∧
      line <+: p ∧ line <+: rowText p ∧ (p = line → ps = []) := by
  obtain ⟨hpieces, hlength⟩ := pieces_append_of_begins hat.begins (line ++ after)
  obtain ⟨body, hbody, hline⟩ := h
  have hget := getElem?_of_hasBody hbody
  rw [hat.text_eq, hpieces, List.getElem?_append_right (by rw [hlength, hat.count_eq]), hlength, hat.count_eq,
    Nat.sub_self] at hget
  obtain ⟨p, hp, rfl⟩ := Option.map_eq_some_iff.mp hget
  obtain ⟨ps, hps⟩ : ∃ ps, pieces (line ++ after) = p :: ps := by
    cases hcut : pieces (line ++ after) with
    | nil => simp [hcut] at hp
    | cons q qs =>
      rw [hcut] at hp
      exact ⟨qs, by rw [Option.some.inj hp]⟩
  have hdrop : dropEnd '\r' (dropEnd '\n' p) = line := dropEnd_eq_iff.mpr hline
  have hprefix : line <+: p := hdrop ▸ (dropEnd_isPrefix '\r' _).trans (dropEnd_isPrefix '\n' p)
  refine ⟨p, ps, by rw [hat.text_eq, hpieces, hps], hprefix, ?_, fun hall => ?_⟩
  · rw [rowText]
    split_ifs with hlast
    · have hbody : dropEnd '\n' p = p.dropLast := if_pos hlast
      rw [hbody] at hdrop
      exact ⟨[], by rw [List.append_nil, hdrop]⟩
    · exact hprefix
  · exact eq_nil_of_pieces_eq_cons hps (hall ▸ hat.not_mem)

/-- A place is in the first row that ends behind it, or in the last one. -/
theorem rowAt_eq {offset : ℕ} {row : Row} {rows rest : List Row} (h : rowsFrom 1 0 (pieces text) = rows ++ row :: rest)
    (hrows : ∀ r ∈ rows, r.stop ≤ offset) (hstart : row.start ≤ offset) (hstop : offset < row.stop ∨ rest = []) :
    rowAt text offset = row := by
  have hnone : rows.find? (fun r => r.start ≤ offset && offset < r.stop) = none :=
    List.find?_eq_none.mpr fun r hr => by simp [hrows r hr]
  rw [rowAt, h, List.find?_append, hnone, Option.none_or]
  by_cases hin : offset < row.stop
  · rw [List.find?_cons_of_pos (by simp [hstart, hin])]
  · rw [hstop.resolve_left hin, List.find?_cons_of_neg (by simp [hin]), List.find?_nil, List.getLast?_concat]
    rfl

/-- The row of a place on a line is the line, perhaps with a carriage return. -/
theorem rowAt_of_hasLine {before after head : List Char} (h : HasLine text i line)
    (hat : LineAt text i before line after) (hhead : head <+: line) :
    ∃ stop shown, line <+: shown ∧
      rowAt text (byteLength (before ++ head)) = ⟨i + 1, byteLength before, stop, shown⟩ := by
  obtain ⟨p, ps, hpieces, ⟨u, hp⟩, hshown, hlast⟩ := exists_piece_of_lineAt h hat
  obtain ⟨tail, htail⟩ := hhead
  have hlength := (pieces_append_of_begins hat.begins []).2
  have hrows : rowsFrom 1 0 (pieces text) = rowsFrom 1 0 (pieces before) ++
      ⟨i + 1, byteLength before, byteLength before + byteLength p, rowText p⟩ ::
        rowsFrom (i + 2) (byteLength before + byteLength p) ps := by
    rw [hpieces, rowsFrom_append, rowsFrom, flatten_pieces, hlength, hat.count_eq]
    simp only [Nat.zero_add, Nat.add_comm 1]
  have hbytes : byteLength p = byteLength head + byteLength tail + byteLength u := by
    rw [← hp, ← htail, byteLength_append, byteLength_append]
  refine ⟨byteLength before + byteLength p, rowText p, hshown, rowAt_eq hrows (fun r hr => ?_) ?_ ?_⟩
  · have hstop := stop_le_of_mem_rowsFrom hr
    rw [flatten_pieces] at hstop
    rw [byteLength_append]
    omega
  · show byteLength before ≤ byteLength (before ++ head)
    rw [byteLength_append]
    omega
  · show byteLength (before ++ head) < byteLength before + byteLength p ∨ _
    rw [byteLength_append]
    by_cases hin : byteLength head < byteLength p
    · exact .inl (by omega)
    · -- the text ends with the line, and the place is behind it
      have hu : u = [] := eq_nil_of_byteLength (by omega)
      rw [hlast (by rw [← hp, hu, List.append_nil])]
      exact .inr rfl

/-- The end of a text is in its last row. -/
theorem number_rowAt_end (text : List Char) : (rowAt text (byteLength text)).number = max 1 (pieces text).length := by
  rcases List.eq_nil_or_concat (pieces text) with hnone | ⟨ps, p, hlast⟩
  · rw [rowAt, hnone]
    rfl
  · have hrows := rowsFrom_append 1 0 ps [p]
    rw [← List.concat_eq_append, ← hlast] at hrows
    have hbytes : byteLength text = byteLength ps.flatten + byteLength p := by
      rw [← flatten_pieces text, hlast, List.concat_eq_append, List.flatten_concat, byteLength_append]
    have hbefore : ∀ r ∈ rowsFrom 1 0 ps, r.stop ≤ byteLength text := fun r hr => by
      have hstop := stop_le_of_mem_rowsFrom hr
      omega
    have hstart : 0 + byteLength ps.flatten ≤ byteLength text := by omega
    rw [rowAt_eq hrows hbefore hstart (.inr rfl), hlast, List.length_concat]
    show 1 + ps.length = _
    omega

theorem chars_column (number stop : ℕ) (before head rest : List Char) :
    (Row.column ⟨number, byteLength before, stop, head ++ rest⟩ (byteLength (before ++ head))).chars = head.length := by
  have hplace : byteLength (before ++ head) - byteLength before = byteLength head := by
    rw [byteLength_append, Nat.add_sub_cancel_left]
  have hwithin : ¬ byteLength (head ++ rest) < byteLength head := by
    rw [byteLength_append]
    omega
  simp only [Row.column, hplace, takeBytes_byteLength, if_neg hwithin, Nat.add_zero]

/-! ## Blocks -/

theorem exists_paint_sourceLines (style : Style) (gutter number : ℕ) (line : List Char) (start stop : ℕ) :
    ∃ code marks, (sourceLines gutter number line start stop).map (Cells.paint style) = [code, marks] := ⟨_, _, rfl⟩

/-- A block shows a finding in a text.  A line of the text stands in it with its number, and with the finding's column
if it is so long; where there is no such line, the last one stands in for it. -/
def Shows (style : Style) (source path : String) (f : Finding) (block : String) : Prop :=
  ∃ number column, IsBlock style path f number column block ∧
    (∀ line, f.line ≠ 0 → HasLine source.toList (f.line.toNat - 1) line →
      number = f.line.toNat ∧ column = min (f.col.toNat - 1) line.length + 1) ∧
    ((f.line = 0 ∨ ∀ line, ¬ HasLine source.toList (f.line.toNat - 1) line) →
      number = max 1 (pieces source.toList).length)

/-- A snippet shows its finding. -/
theorem render_shows (style : Style) (source path : String) (f : Finding) :
    Shows style source path f (render style source path f) := by
  let row := rowAt source.toList (byteSpan source.toList f).1
  refine ⟨row.number, (row.column (byteSpan source.toList f).1).chars + 1, ?_, fun line hzero hline => ?_, fun hnone => ?_⟩
  · rw [render, drawing]
    dsimp only
    obtain ⟨code, marks, hsource⟩ := exists_paint_sourceLines style _ row.number row.text _ _
    rw [List.map_append, List.map_append, paint_titleLines, List.map_cons, List.map_cons, List.map_nil, paint_placeLine,
      paint_rule, List.append_assoc, hsource]
    exact ⟨_, code, marks, rfl⟩
  · obtain ⟨before, head, token, tail, after, hat, hparts, hhead, hspan, -⟩ := byteSpan_of_hasLine hzero hline
    obtain ⟨stop, shown, ⟨rest, hshown⟩, hrow⟩ := rowAt_of_hasLine hline hat ⟨token ++ tail, hparts.symm⟩
    have hplace : row = ⟨f.line.toNat - 1 + 1, byteLength before, stop, head ++ (token ++ tail ++ rest)⟩ := by
      rw [← List.append_assoc, ← hparts, hshown, ← hrow]
      show rowAt source.toList (byteSpan source.toList f).1 = _
      rw [hspan]
    have hpos : f.line.toNat ≠ 0 := fun h => hzero (UInt32.toNat_inj.mp h)
    rw [hspan, hplace]
    constructor
    · show f.line.toNat - 1 + 1 = f.line.toNat
      omega
    · rw [chars_column, hhead, List.length_take]
  · show (rowAt source.toList (byteSpan source.toList f).1).number = _
    rw [byteSpan_of_no_line hnone]
    exact number_rowAt_end source.toList

end TagLint.Report

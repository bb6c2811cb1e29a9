import TagLint.Proofs.RuleIndependence

/-!
# Bounds of ranges — whose diagnostics end on their line

The lines of a text are its pieces between line feeds.  A range is cut out of the line that its finding names, where a
line that is missing is as an empty one (`range_eq`).

* `range_within`: the range of a finding whose column is on its line, or next to its end, ends on the line.
* `range_beyond`: the range of a finding whose column lies farther along starts behind the end of the line.

The columns of a tag are counted along its first line.  So the range of a finding in a tag ends on the line if no line
feed of the tag stands before the place that is meant, and lies behind the line if one does
(`diagnostics_on_first_line`).
-/

namespace TagLint

namespace Text

/-! ## Units -/

theorem units16_take_mono (cs : List Char) {m n : ℕ} (h : m ≤ n) : units16 (cs.take m) ≤ units16 (cs.take n) := by
  obtain ⟨k, rfl⟩ := Nat.exists_eq_add_of_le h
  rw [List.take_add, units16_append]
  exact Nat.le_add_right _ _

theorem units16_take_le (cs : List Char) (n : ℕ) : units16 (cs.take n) ≤ units16 cs := by
  have h := units16_append (cs.take n) (cs.drop n)
  rw [List.take_append_drop] at h
  omega

end Text

namespace Report

open Text

variable {text line : List Char} {f : Finding} {i : ℕ}

/-! ## Tokens on a line -/

theorem tokenChars_bounds (line : List Char) (col : Coord) :
    (tokenChars line col).1 = col.toNat - 1 ∧ (tokenChars line col).1 ≤ (tokenChars line col).2 ∧
      (tokenChars line col).2 ≤ max line.length (col.toNat - 1) := by
  refine ⟨rfl, le_max_right _ _, max_le_max_right _ ?_⟩
  split
  · rename_i i hi
    have hlt := (List.findIdx?_eq_some_iff_getElem.mp hi).1
    rw [List.length_drop] at hlt
    show col.toNat - 1 + 1 + i ≤ line.length
    omega
  · exact le_refl _

theorem toNat_utf16Column_eq (line : List Char) (chars : ℕ) :
    (utf16Column line chars).toNat = min (units16 (line.take chars) + (chars - line.length)) 4294967295 :=
  Coord.toNat_clamp _

theorem utf16Column_mono (line : List Char) {m n : ℕ} (h : m ≤ n) :
    (utf16Column line m).toNat ≤ (utf16Column line n).toNat := by
  have htake := units16_take_mono line h
  rw [toNat_utf16Column_eq, toNat_utf16Column_eq]
  omega

/-- A token ends on the line, or where it begins if that is behind the line. -/
theorem toNat_stop_le (line : List Char) (col : Coord) :
    (utf16Column line (tokenChars line col).2).toNat ≤ units16 line + (col.toNat - 1 - line.length) := by
  obtain ⟨-, -, hstop⟩ := tokenChars_bounds line col
  have htake := units16_take_le line (tokenChars line col).2
  rw [toNat_utf16Column_eq]
  omega

/-- A token behind the line begins as many units behind it as its column says. -/
theorem toNat_start_of_le (line : List Char) (col : Coord) (h : line.length ≤ col.toNat - 1) :
    (utf16Column line (tokenChars line col).1).toNat =
      min (units16 line + (col.toNat - 1 - line.length)) 4294967295 := by
  rw [toNat_utf16Column_eq, (tokenChars_bounds line col).1, List.take_of_length_le h]

/-! ## Ranges in a text -/

theorem toNat_line_range (hget : (splitAt '\n' text)[i]? = some line) (h : f.line.toNat = i + 1) :
    (range f text).start.line = (range f text).stop.line ∧ (range f text).stop.line.toNat = i := by
  rw [range_eq hget h]
  exact ⟨rfl, by rw [Coord.toNat_satPred, h, Nat.add_sub_cancel]⟩

theorem range_forward (hget : (splitAt '\n' text)[i]? = some line) (h : f.line.toNat = i + 1) :
    (range f text).start.character.toNat ≤ (range f text).stop.character.toNat := by
  rw [range_eq hget h]
  exact utf16Column_mono _ (tokenChars_bounds _ _).2.1

/-- A carriage return is one character of one unit. -/
theorem units16_dropEnd (line : List Char) :
    units16 line = units16 (dropEnd '\r' line) + (line.length - (dropEnd '\r' line).length) ∧
      (dropEnd '\r' line).length ≤ line.length ∧ line.length ≤ (dropEnd '\r' line).length + 1 := by
  rcases eq_dropEnd_or '\r' line with h | h
  · rw [← h]
    omega
  · have hlen := congrArg List.length h
    have hunits := congrArg units16 h
    have hreturn : units16 ['\r'] = 1 := rfl
    rw [List.length_append, List.length_singleton] at hlen
    rw [units16_append, hreturn] at hunits
    omega

theorem range_within (hget : (splitAt '\n' text)[i]? = some line) (h : f.line.toNat = i + 1)
    (hcol : f.col.toNat ≤ line.length + 1) :
    (range f text).stop.character.toNat ≤ units16 line ∧
      (f.col.toNat ≤ line.length → (range f text).stop.character.toNat ≤ units16 (dropEnd '\r' line)) := by
  have hstop := toNat_stop_le (dropEnd '\r' line) f.col
  obtain ⟨hunits, -, hlen⟩ := units16_dropEnd line
  rw [range_eq hget h]
  dsimp only
  omega

theorem range_beyond (hget : (splitAt '\n' text)[i]? = some line) (h : f.line.toNat = i + 1)
    (hcol : line.length + 1 < f.col.toNat) (hunits : units16 line + 1 < UInt32.size) :
    units16 line < (range f text).start.character.toNat := by
  obtain ⟨hline, hle, -⟩ := units16_dropEnd line
  have hsize : UInt32.size = 4294967296 := rfl
  have hstart := toNat_start_of_le (dropEnd '\r' line) f.col (by omega)
  rw [range_eq hget h]
  dsimp only
  omega

end Report

/-! ## Findings in a tag -/

/-- An event stands in a text: its own text at its line and column, and there the name of each attribute at the
offset of the attribute. -/
structure Event.StandsIn (text : List Char) (event : Event) : Prop where
  place : ∃ before after, text = before ++ (event.raw.toList ++ after) ∧
    event.line.toNat = before.count '\n' + 1 ∧ event.col.toNat = (Text.lastLine before).length + 1
  attrs : ∀ tag, event = .openTag tag → ∀ attr ∈ tag.attrs, ∃ upTo behind,
    tag.raw.toList = upTo ++ (attr.name.toList ++ behind) ∧ attr.offset.toNat = upTo.length

/-- A finding points so many characters into a tag: none, or those before one of the attributes. -/
inductive PointsInto (tag : OpenTag) (f : Finding) : ℕ → Prop
  | tag (h : f.col = tag.col) : PointsInto tag f 0
  | attr {attr : Attribute} (hattr : attr ∈ tag.attrs) (h : f.col = tag.attrCol attr) :
      PointsInto tag f attr.offset.toNat

section

open Text Report

variable {text : List Char} {tag : OpenTag} {f : Finding} {k : ℕ}

theorem PointsInto.toNat_col (h : PointsInto tag f k) : f.col.toNat = min (tag.col.toNat + k) 4294967295 := by
  cases h with
  | tag h =>
    have hlt := tag.col.toNat_lt
    rw [h]
    omega
  | attr _ h => rw [h, OpenTag.attrCol, Coord.toNat_satAdd]

/-- What a finding points to stands in the tag. -/
theorem PointsInto.le_length (h : PointsInto tag f k) (hstands : (Event.openTag tag).StandsIn text) :
    k ≤ tag.raw.toList.length := by
  cases h with
  | tag => exact Nat.zero_le _
  | attr hattr =>
    obtain ⟨upTo, behind, hraw, hoffset⟩ := hstands.attrs tag rfl _ hattr
    rw [hraw, List.length_append]
    omega

theorem Validator.AtTag.pointsInto {id : String} (h : Validator.AtTag id tag f) :
    f.line = tag.line ∧ ∃ k, PointsInto tag f k := by
  cases h with
  | tag message => exact ⟨rfl, 0, .tag rfl⟩
  | attr message hattr => exact ⟨rfl, _, .attr hattr rfl⟩

/-- What the tag rule and the duplication rule find is about a tag of the events. -/
theorem Validator.exists_atTag {config : RuleConfig} {v : Validator} (hconfig : ofConfig config = .ok v)
    {event : Event} (hf : f ∈ v.found event) (hid : f.ruleId = TagsCheck.ruleId ∨ f.ruleId = AttrNoDuplication.ruleId) :
    ∃ id tag, event = .openTag tag ∧ AtTag id tag f := by
  obtain ⟨rule, hrule, hf⟩ := List.mem_flatMap.mp hf
  cases enabled_of_mem hconfig hrule with
  | tagsCheck =>
    obtain ⟨tag, hevent, hat⟩ := atTag_of_mem_tagsCheck hf
    exact ⟨_, tag, hevent, hat⟩
  | attrNoDuplication =>
    obtain ⟨tag, hevent, hat⟩ := atTag_of_mem_attrNoDuplication hf
    exact ⟨_, tag, hevent, hat⟩
  | maxLength =>
    rw [eq_of_mem_maxLength hf] at hid
    have hlength : ¬ (MaxLength.ruleId = TagsCheck.ruleId ∨ MaxLength.ruleId = AttrNoDuplication.ruleId) := by decide
    exact absurd hid hlength

/-- The range of a finding that points `k` characters into a tag.  It lies on `line`, the first line of the tag, if no
line feed of the tag stands before that place, and behind the end of that line if one does. -/
structure RangeInTag (text : List Char) (tag : OpenTag) (k : ℕ) (line : List Char) (range : Range) : Prop where
  line_eq : (splitAt '\n' text)[range.stop.line.toNat]? = some line
  line_of_tag : range.stop.line.toNat + 1 = tag.line.toNat
  on_one_line : range.start.line = range.stop.line
  forward : range.start.character.toNat ≤ range.stop.character.toNat
  within : '\n' ∉ tag.raw.toList.take k → range.stop.character.toNat ≤ units16 line
  /-- If something else than a line feed is meant, a carriage return at the end of the line does not count. -/
  before_return : '\n' ∉ tag.raw.toList.take k → (∃ c, (tag.raw.toList.drop k).head? = some c ∧ c ≠ '\n') →
    range.stop.character.toNat ≤ units16 (dropEnd '\r' line)
  beyond : '\n' ∈ tag.raw.toList.take k → units16 line + 2 < UInt32.size → units16 line < range.start.character.toNat

theorem PointsInto.exists_rangeInTag (h : PointsInto tag f k) (hline : f.line = tag.line)
    (hstands : (Event.openTag tag).StandsIn text) : ∃ line, RangeInTag text tag k line (range f text) := by
  obtain ⟨before, after, htext, hrow, hcolumn⟩ := hstands.place
  change text = before ++ (tag.raw.toList ++ after) at htext
  change tag.line.toNat = before.count '\n' + 1 at hrow
  change tag.col.toNat = (lastLine before).length + 1 at hcolumn
  have hcol := h.toNat_col
  have hget := getElem?_splitAt_append before (tag.raw.toList ++ after)
  have htake : (tag.raw.toList.take k).length = k := List.length_take_of_le (h.le_length hstands)
  rw [← htext, ← List.take_append_drop k tag.raw.toList, List.append_assoc] at hget
  rw [← hline] at hrow
  obtain ⟨hlines, hat⟩ := toNat_line_range hget hrow
  have hfound := hget
  rw [← hat] at hfound
  have hnumber : (range f text).stop.line.toNat + 1 = tag.line.toNat := by rw [hat, ← hrow, hline]
  refine ⟨_, hfound, hnumber, hlines, range_forward hget hrow, fun hfirst => ?_, fun hfirst ⟨c, hhead, hc⟩ => ?_,
    fun hlater hunits => ?_⟩
  · refine (range_within hget hrow ?_).1
    rw [firstLine_append hfirst, List.length_append, List.length_append, htake]
    omega
  · obtain ⟨cs, hdrop⟩ := List.head?_eq_some_iff.mp hhead
    have hlen : f.col.toNat ≤
        (lastLine before ++ firstLine (tag.raw.toList.take k ++ (tag.raw.toList.drop k ++ after))).length := by
      rw [firstLine_append hfirst, hdrop, List.cons_append, firstLine_cons hc, List.length_append, List.length_append,
        htake, List.length_cons]
      omega
    exact (range_within hget hrow (Nat.le_succ_of_le hlen)).2 hlen
  · have hlt := length_firstLine_append_lt hlater (tag.raw.toList.drop k ++ after)
    have hlen := length_le_units16
      (lastLine before ++ firstLine (tag.raw.toList.take k ++ (tag.raw.toList.drop k ++ after)))
    have hsize : UInt32.size = 4294967296 := rfl
    rw [htake] at hlt
    rw [List.length_append] at hlen
    refine range_beyond hget hrow ?_ (by omega)
    rw [List.length_append]
    omega

end

namespace Validator

open Text

/-- **Diagnostics end on the first line of their tag, or lie behind it.**  The events of a document stand in its text.
Each finding of the tag rule or of the duplication rule points at a tag or at an attribute of one.  Its range ends on
the line of the tag if no line feed stands between the start of the tag and the attribute; if one does, the range lies
behind the end of that line. -/
theorem diagnostics_on_first_line {config : RuleConfig} {v : Validator} (hconfig : ofConfig config = .ok v)
    {text : String} {events : List Event} (hevents : ∀ event ∈ events, event.StandsIn text.toList) :
    ∃ findings, v.validate events = .ok findings ∧
      ∀ f ∈ findings, f.ruleId = TagsCheck.ruleId ∨ f.ruleId = AttrNoDuplication.ruleId →
        ∃ tag k line, .openTag tag ∈ events ∧ PointsInto tag f k ∧
          RangeInTag text.toList tag k line (Report.diagnostic text.toList f).range := by
  have hsound : ∀ rule ∈ v.rules, rule.Sound := fun rule hrule => (enabled_of_mem hconfig hrule).sound
  refine ⟨_, validate_of_sound hsound events, fun f hf hid => ?_⟩
  obtain ⟨group, hgroup, hf⟩ := List.mem_flatten.mp hf
  obtain ⟨event, hevent, rfl⟩ := List.mem_map.mp hgroup
  obtain ⟨id, tag, rfl, hat⟩ := exists_atTag hconfig hf hid
  obtain ⟨hline, k, hpoints⟩ := hat.pointsInto
  obtain ⟨line, hrange⟩ := hpoints.exists_rangeInTag hline (hevents _ hevent)
  exact ⟨tag, k, line, hevent, hpoints, hrange⟩

/-- A link over two lines, with a redundant attribute on the first one and a repeated one on the second. -/
def brokenLink : OpenTag :=
  ⟨"a", 1, 1, false, [⟨"href", "", 3⟩, ⟨"alt", "", 11⟩, ⟨"href", "", 20⟩], "<a href=\"\" alt=\"\"\n  href=\"\">"⟩

/-- The text that consists of the link. -/
def brokenText : String := brokenLink.raw ++ "\n"

theorem standsIn_brokenText : ∀ event ∈ [Event.openTag brokenLink], event.StandsIn brokenText.toList := by
  intro event hevent
  obtain rfl := List.mem_singleton.mp hevent
  refine ⟨⟨[], ['\n'], by decide, rfl, rfl⟩, fun tag htag attr hattr => ?_⟩
  obtain rfl := Event.openTag.inj htag
  have hcut : ∀ attr ∈ brokenLink.attrs, brokenLink.raw.toList = brokenLink.raw.toList.take attr.offset.toNat ++
      (attr.name.toList ++ brokenLink.raw.toList.drop (attr.offset.toNat + attr.name.length)) ∧
      attr.offset.toNat = (brokenLink.raw.toList.take attr.offset.toNat).length := by decide
  exact ⟨_, _, hcut attr hattr⟩

theorem diagnostics_on_first_line_brokenLink :
    ∃ v findings, ofConfig .defaults = .ok v ∧ v.validate [.openTag brokenLink] = .ok findings ∧
      findings.map (fun f => (f.ruleId, f.col.toNat)) = [("tags-check", 12), ("attr-no-duplication", 21)] ∧
      ∀ f ∈ findings, ∃ k line, PointsInto brokenLink f k ∧
        RangeInTag brokenText.toList brokenLink k line (Report.diagnostic brokenText.toList f).range := by
  have hv : ∃ v, ofConfig .defaults = .ok v ∧ (v.validate [.openTag brokenLink]).toOption.map
      (fun fs => fs.map fun f => (f.ruleId, f.col.toNat)) =
        some [("tags-check", 12), ("attr-no-duplication", 21)] := ⟨_, rfl, by decide⟩
  obtain ⟨v, hconfig, hfound⟩ := hv
  obtain ⟨findings, hvalidate, hranges⟩ := diagnostics_on_first_line hconfig standsIn_brokenText
  rw [hvalidate] at hfound
  have hlist : findings.map (fun f => (f.ruleId, f.col.toNat)) = [("tags-check", 12), ("attr-no-duplication", 21)] :=
    Option.some.inj hfound
  refine ⟨v, findings, hconfig, hvalidate, hlist, fun f hf => ?_⟩
  have hid : (f.ruleId, f.col.toNat) ∈ [("tags-check", 12), ("attr-no-duplication", 21)] :=
    hlist ▸ List.mem_map_of_mem hf
  have hrule : f.ruleId = TagsCheck.ruleId ∨ f.ruleId = AttrNoDuplication.ruleId := by
    simp only [List.mem_cons, Prod.mk.injEq, List.not_mem_nil, or_false] at hid
    exact hid.imp And.left And.left
  obtain ⟨tag, k, line, hmem, hpoints, hrange⟩ := hranges f hf hrule
  obtain rfl := Event.openTag.inj (List.mem_singleton.mp hmem)
  exact ⟨k, line, hpoints, hrange⟩

/-- The repeated attribute on the second line has a range behind the end of the first. -/
theorem repeat_behind_first_line :
    ∃ v findings, ofConfig .defaults = .ok v ∧
      (∀ event ∈ [Event.openTag brokenLink], event.StandsIn brokenText.toList) ∧
      v.validate [.openTag brokenLink] = .ok findings ∧ ∃ f ∈ findings, f.ruleId = AttrNoDuplication.ruleId ∧
        let range := (Report.diagnostic brokenText.toList f).range
        ¬ ∃ line, (splitAt '\n' brokenText.toList)[range.stop.line.toNat]? = some line ∧
          range.stop.character.toNat ≤ units16 line := by
  have hv : ∃ v findings, ofConfig .defaults = .ok v ∧ v.validate [.openTag brokenLink] = .ok findings ∧
      AttrNoDuplication.finding brokenLink ⟨"href", "", 20⟩ ∈ findings := ⟨_, _, rfl, rfl, by decide⟩
  obtain ⟨v, findings, hconfig, hvalidate, hmem⟩ := hv
  refine ⟨v, findings, hconfig, standsIn_brokenText, hvalidate, _, hmem, rfl, ?_⟩
  intro range hinside
  obtain ⟨line, hline, hle⟩ := hinside
  have hat : range.stop = ⟨0, 20⟩ := by decide
  have hfirst : (splitAt '\n' brokenText.toList)[0]? = some "<a href=\"\" alt=\"\"".toList := by decide
  rw [hat] at hline hle
  rw [show (0 : Coord).toNat = 0 from rfl, hfirst] at hline
  obtain rfl := Option.some.inj hline
  exact absurd hle (by decide)

end Validator

end TagLint

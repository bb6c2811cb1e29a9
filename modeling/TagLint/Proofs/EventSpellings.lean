import TagLint.Proofs.EventStream

/-!
# Event spellings — the objects that stand for an event

An event has many spellings: the members of its object may come in any order, others may stand between them, and what
has its default may be left out.

* `Spells e ms`: an object with the members `ms` stands for the event `e`; `ofJson_object_eq_ok_iff` says that the
  reader agrees.  Member by member it fills slots, each at most once (`Takes`, `Fills`).
* `Defective ms`: the members lack a field, give one twice, or have a value in them that no event has.
* **`Document.ofEventsText_all_or_nothing`**: a document has exactly the events that a text spells, and a text with a
  defect makes no document.
-/

namespace TagLint

namespace Event

open Json

variable {α : Type} {ms : List (String × Json)} {m : String × Json} {j v : Json} {names : List String} {e : Event}

/-! ## Spellings -/

/-- The values that an object gives for a field, which may have several names. -/
def valuesOf (names : List String) (ms : List (String × Json)) : List Json :=
  (ms.filter fun m => m.1 ∈ names).map (·.2)

/-- An object gives one value for a field. -/
def Gives (names : List String) (ms : List (String × Json)) (v : Json) : Prop := valuesOf names ms = [v]

/-- An object gives one value for a field, or none if it is the default. -/
def GivesOr (default : Json) (names : List String) (ms : List (String × Json)) (v : Json) : Prop :=
  Gives names ms v ∨ valuesOf names ms = [] ∧ v = default

/-- The number of a coordinate. -/
def coordJson (n : Coord) : Json := .number (.natural n.toNat)

/-- A value stands for an attribute: an object in which its value and its offset may be missing, or a list of its
fields that may end early. -/
def SpellsAttribute (a : Attribute) (j : Json) : Prop :=
  (∃ ms, j = .object ms ∧ Gives ["name"] ms (.string a.name) ∧ GivesOr (.string "") ["value"] ms (.string a.value) ∧
    GivesOr (coordJson 0) ["offset"] ms (coordJson a.offset)) ∨
  (a.offset = 0 ∧ a.value = "" ∧ j = .array [.string a.name]) ∨
  (a.offset = 0 ∧ j = .array [.string a.name, .string a.value]) ∨
  j = .array [.string a.name, .string a.value, coordJson a.offset]

/-- An object has the fields of an opening tag. -/
def SpellsOpenTag (tag : OpenTag) (ms : List (String × Json)) : Prop :=
  Gives ["tag_name"] ms (.string tag.name) ∧ Gives ["line"] ms (coordJson tag.line) ∧
    Gives ["col"] ms (coordJson tag.col) ∧
    GivesOr (.bool false) ["self_closed", "close"] ms (.bool tag.selfClosed) ∧
    (∃ attrs, GivesOr (.array []) ["attrs"] ms (.array attrs) ∧ List.Forall₂ SpellsAttribute tag.attrs attrs) ∧
    GivesOr (.string "") ["raw"] ms (.string tag.raw)

/-- An object has the fields of a chunk. -/
def SpellsChunk (chunk : Chunk) (ms : List (String × Json)) : Prop :=
  Gives ["line"] ms (coordJson chunk.line) ∧ Gives ["col"] ms (coordJson chunk.col) ∧
    GivesOr (.string "") ["raw"] ms (.string chunk.raw)

/-- An object has the fields of a closing tag. -/
def SpellsCloseTag (tag : CloseTag) (ms : List (String × Json)) : Prop :=
  Gives ["tag_name"] ms (.string tag.name) ∧ Gives ["line"] ms (coordJson tag.line) ∧
    Gives ["col"] ms (coordJson tag.col) ∧ GivesOr (.string "") ["raw"] ms (.string tag.raw)

/-- The name of an event's variant. -/
def kindName : Event → String
  | .openTag _ => "tag-start"
  | .text _ => "text"
  | .comment _ => "comment"
  | .cdata _ => "cdata"
  | .closeTag _ => "tag-end"

/-- An object has the fields of an event. -/
def SpellsFields (e : Event) (ms : List (String × Json)) : Prop :=
  match e with
  | .openTag tag => SpellsOpenTag tag ms
  | .text chunk | .comment chunk | .cdata chunk => SpellsChunk chunk ms
  | .closeTag tag => SpellsCloseTag tag ms

/-- An object stands for an event.  Its members may come in any order and with any others between them. -/
def Spells (e : Event) (ms : List (String × Json)) : Prop :=
  Gives ["kind"] ms (.string e.kindName) ∧ SpellsFields e ms

/-! ## Slots -/

theorem valuesOf_cons_of_mem (h : m.1 ∈ names) (ms : List (String × Json)) :
    valuesOf names (m :: ms) = m.2 :: valuesOf names ms := by
  simp [valuesOf, h]

theorem valuesOf_cons_of_not_mem (h : m.1 ∉ names) (ms : List (String × Json)) :
    valuesOf names (m :: ms) = valuesOf names ms := by
  simp [valuesOf, h]

/-- What one member does to a slot: it fills an empty one if it has its name. -/
def Takes (names : List String) (read : Json → Except Mismatch α) (slot : Option α) (m : String × Json)
    (slot' : Option α) : Prop :=
  if m.1 ∈ names then slot = none ∧ ∃ a, read m.2 = .ok a ∧ some a = slot' else slot = slot'

/-- What the members of an object do to a slot: one at most has its name, and none if something is in it. -/
def Fills (names : List String) (read : Json → Except Mismatch α) (slot : Option α) (ms : List (String × Json))
    (slot' : Option α) : Prop :=
  (valuesOf names ms = [] ∧ slot = slot') ∨
    slot = none ∧ ∃ v a, valuesOf names ms = [v] ∧ read v = .ok a ∧ some a = slot'

section

variable {read : Json → Except Mismatch α} {slot slot' : Option α} {label : String}

theorem map_fill_eq_ok_iff {β : Type} {k : Option α → β} {b : β} : k <$> fill label slot read v = .ok b ↔
    slot = none ∧ ∃ a, read v = .ok a ∧ k (some a) = b := by
  show (fill label slot read v).map k = .ok b ↔ _
  cases slot <;> simp [fill, map_eq_ok_iff]

theorem fills_nil : Fills names read slot [] slot' ↔ slot = slot' := by
  simp [Fills, valuesOf, eq_comm]

theorem fills_cons : Fills names read slot (m :: ms) slot' ↔
    ∃ s, Takes names read slot m s ∧ Fills names read s ms slot' := by
  by_cases h : m.1 ∈ names
  · simp only [Fills, Takes, if_pos h, valuesOf_cons_of_mem h]
    grind
  · simp only [Fills, Takes, if_neg h, valuesOf_cons_of_not_mem h]
    grind

theorem fills_some_iff {a : α} :
    Fills names read none ms (some a) ↔ ∃ v, Gives names ms v ∧ read v = .ok a := by
  simp [Fills, Gives]

theorem fills_getD_iff {d a : α} {default : Json} (h : read default = .ok d) :
    (∃ s, Fills names read none ms s ∧ s.getD d = a) ↔ ∃ v, GivesOr default names ms v ∧ read v = .ok a := by
  constructor
  · rintro ⟨s, ⟨hnone, rfl⟩ | ⟨-, v, b, hv, hread, rfl⟩, rfl⟩
    · exact ⟨default, .inr ⟨hnone, rfl⟩, h⟩
    · exact ⟨v, .inl hv, hread⟩
  · rintro ⟨v, hv | ⟨hnone, rfl⟩, hread⟩
    · exact ⟨some a, fills_some_iff.mpr ⟨v, hv, hread⟩, rfl⟩
    · exact ⟨none, .inl ⟨hnone, rfl⟩, Except.ok.inj (h.symm.trans hread)⟩

end

theorem need_eq_ok_iff {label : String} {slot : Option α} {a : α} : need label slot = .ok a ↔ slot = some a := by
  cases slot <;> simp [need]

/-! ## Values -/

theorem asString_eq_ok_iff {s : String} : asString v = .ok s ↔ v = .string s := by
  cases v <;> simp [asString]

theorem asBool_eq_ok_iff {b : Bool} : asBool v = .ok b ↔ v = .bool b := by
  cases v <;> simp [asBool]

theorem asCoord_eq_ok_iff {n : Coord} : asCoord v = .ok n ↔ v = coordJson n := by
  unfold asCoord
  split
  · rename_i k
    by_cases hk : k < UInt32.size
    · simp [if_pos hk, coordJson, ← UInt32.toNat_inj, UInt32.toNat_ofNat_of_lt' hk]
    · have : k ≠ n.toNat := fun h => hk (h ▸ n.toNat_lt)
      simp [if_neg hk, coordJson, this]
  · simp [coordJson]
  · simp_all [coordJson]

theorem asItems_eq_ok_iff {items : List Json} : asItems v = .ok items ↔ v = .array items := by
  cases v <;> simp [asItems]

theorem asListOf_eq_ok_iff {read : Json → Except Mismatch α} {as : List α} :
    asListOf read v = .ok as ↔ ∃ items, v = .array items ∧ List.Forall₂ (fun j a => read j = .ok a) items as := by
  simp [asListOf, bind_eq_ok_iff, asItems_eq_ok_iff, mapM_eq_ok_iff]

theorem nextField_eq_ok_iff {read : Json → Except Mismatch α} {count : ℕ} {record : String} {js js' : List Json}
    {a : α} : nextField count record read (v :: js) = .ok (a, js') ↔ read v = .ok a ∧ js = js' := by
  cases h : read v <;> simp [nextField, h, Except.map]

theorem nextFieldOr_nil_eq_ok_iff {read : Json → Except Mismatch α} {d : α} {js : List Json} {a : α} :
    nextFieldOr d read [] = .ok (a, js) ↔ d = a ∧ [] = js := by
  simp [nextFieldOr]

theorem nextFieldOr_eq_ok_iff {read : Json → Except Mismatch α} {d : α} {js js' : List Json} {a : α} :
    nextFieldOr d read (v :: js) = .ok (a, js') ↔ read v = .ok a ∧ js = js' := by
  cases h : read v <;> simp [nextFieldOr, h, Except.map]

/-! ## Fields -/

section

variable {read : Json → Except Mismatch α} {spell : α → Json} (hread : ∀ {v a}, read v = .ok a ↔ v = spell a)
include hread

theorem fills_iff_gives {a : α} : Fills names read none ms (some a) ↔ Gives names ms (spell a) := by
  simp [fills_some_iff, hread]

theorem fills_iff_givesOr {d a : α} :
    (∃ slot, Fills names read none ms slot ∧ slot.getD d = a) ↔ GivesOr (spell d) names ms (spell a) := by
  simp [fills_getD_iff (hread.mpr rfl), hread]

end

theorem fills_string {s : String} : Fills names asString none ms (some s) ↔ Gives names ms (.string s) :=
  fills_iff_gives asString_eq_ok_iff

theorem fills_coord {n : Coord} : Fills names asCoord none ms (some n) ↔ Gives names ms (coordJson n) :=
  fills_iff_gives asCoord_eq_ok_iff

theorem fills_stringOr {s : String} :
    (∃ slot, Fills names asString none ms slot ∧ slot.getD "" = s) ↔ GivesOr (.string "") names ms (.string s) :=
  fills_iff_givesOr asString_eq_ok_iff

theorem fills_coordOr {n : Coord} :
    (∃ slot, Fills names asCoord none ms slot ∧ slot.getD 0 = n) ↔ GivesOr (coordJson 0) names ms (coordJson n) :=
  fills_iff_givesOr asCoord_eq_ok_iff

theorem fills_boolOr {b : Bool} :
    (∃ slot, Fills names asBool none ms slot ∧ slot.getD false = b) ↔ GivesOr (.bool false) names ms (.bool b) :=
  fills_iff_givesOr asBool_eq_ok_iff

theorem fills_listOr {read : Json → Except Mismatch α} {as : List α} :
    (∃ slot, Fills names (asListOf read) none ms slot ∧ slot.getD [] = as) ↔
      ∃ items, GivesOr (.array []) names ms (.array items) ∧ List.Forall₂ (fun j a => read j = .ok a) items as := by
  rw [fills_getD_iff (asListOf_eq_ok_iff.mpr ⟨[], rfl, .nil⟩)]
  simp only [asListOf_eq_ok_iff]
  constructor
  · rintro ⟨_, gives, items, rfl, hitems⟩
    exact ⟨items, gives, hitems⟩
  · rintro ⟨items, gives, hitems⟩
    exact ⟨_, gives, items, rfl, hitems⟩

/-! ## Chunks -/

theorem ChunkFields.read_eq_ok_iff (f : ChunkFields) (m : String × Json) (f' : ChunkFields) : f.read m = .ok f' ↔
    Takes ["line"] asCoord f.line m f'.line ∧ Takes ["col"] asCoord f.col m f'.col ∧
      Takes ["raw"] asString f.raw m f'.raw := by
  obtain ⟨name, v⟩ := m
  cases f
  cases f'
  unfold ChunkFields.read
  split <;> simp_all [Takes, pure_eq_ok_iff, map_fill_eq_ok_iff] <;> grind

theorem ChunkFields.foldlM_eq_ok_iff {f f' : ChunkFields} : ms.foldlM ChunkFields.read f = .ok f' ↔
    Fills ["line"] asCoord f.line ms f'.line ∧ Fills ["col"] asCoord f.col ms f'.col ∧
      Fills ["raw"] asString f.raw ms f'.raw := by
  induction ms generalizing f with
  | nil => cases f; cases f'; simp [pure_eq_ok_iff, fills_nil]
  | cons m ms ih =>
    -- no slot depends on another one, so what fills them together fills each of them
    simp only [List.foldlM_cons, bind_eq_ok_iff, read_eq_ok_iff, ih, fills_cons]
    constructor
    · rintro ⟨_, ⟨line, col, raw⟩, line', col', raw'⟩
      exact ⟨⟨_, line, line'⟩, ⟨_, col, col'⟩, _, raw, raw'⟩
    · rintro ⟨⟨_, line, line'⟩, ⟨_, col, col'⟩, _, raw, raw'⟩
      exact ⟨⟨_, _, _⟩, ⟨line, col, raw⟩, line', col', raw'⟩

theorem chunkOfMembers_eq_ok_iff {chunk : Chunk} : chunkOfMembers ms = .ok chunk ↔ SpellsChunk chunk ms := by
  simp only [chunkOfMembers, bind_eq_ok_iff, ChunkFields.foldlM_eq_ok_iff, need_eq_ok_iff, pure_eq_ok_iff,
    SpellsChunk, ← fills_coord, ← fills_stringOr]
  constructor
  · rintro ⟨⟨_, _, raw⟩, ⟨hline, hcol, hraw⟩, line, rfl, col, rfl, rfl⟩
    exact ⟨hline, hcol, raw, hraw, rfl⟩
  · obtain ⟨line, col, raw⟩ := chunk
    rintro ⟨hline, hcol, raw, hraw, rfl⟩
    exact ⟨⟨_, _, _⟩, ⟨hline, hcol, hraw⟩, _, rfl, _, rfl, rfl⟩

/-! ## Closing tags -/

theorem CloseTagFields.read_eq_ok_iff (f : CloseTagFields) (m : String × Json) (f' : CloseTagFields) :
    f.read m = .ok f' ↔ Takes ["tag_name"] asString f.name m f'.name ∧ Takes ["line"] asCoord f.line m f'.line ∧
      Takes ["col"] asCoord f.col m f'.col ∧ Takes ["raw"] asString f.raw m f'.raw := by
  obtain ⟨name, v⟩ := m
  cases f
  cases f'
  unfold CloseTagFields.read
  split <;> simp_all [Takes, pure_eq_ok_iff, map_fill_eq_ok_iff] <;> grind

theorem CloseTagFields.foldlM_eq_ok_iff {f f' : CloseTagFields} : ms.foldlM CloseTagFields.read f = .ok f' ↔
    Fills ["tag_name"] asString f.name ms f'.name ∧ Fills ["line"] asCoord f.line ms f'.line ∧
      Fills ["col"] asCoord f.col ms f'.col ∧ Fills ["raw"] asString f.raw ms f'.raw := by
  induction ms generalizing f with
  | nil => cases f; cases f'; simp [pure_eq_ok_iff, fills_nil]
  | cons m ms ih =>
    simp only [List.foldlM_cons, bind_eq_ok_iff, read_eq_ok_iff, ih, fills_cons]
    constructor
    · rintro ⟨_, ⟨name, line, col, raw⟩, name', line', col', raw'⟩
      exact ⟨⟨_, name, name'⟩, ⟨_, line, line'⟩, ⟨_, col, col'⟩, _, raw, raw'⟩
    · rintro ⟨⟨_, name, name'⟩, ⟨_, line, line'⟩, ⟨_, col, col'⟩, _, raw, raw'⟩
      exact ⟨⟨_, _, _, _⟩, ⟨name, line, col, raw⟩, name', line', col', raw'⟩

theorem closeTagOfMembers_eq_ok_iff {tag : CloseTag} : closeTagOfMembers ms = .ok tag ↔ SpellsCloseTag tag ms := by
  simp only [closeTagOfMembers, bind_eq_ok_iff, CloseTagFields.foldlM_eq_ok_iff, need_eq_ok_iff, pure_eq_ok_iff,
    SpellsCloseTag, ← fills_string, ← fills_coord, ← fills_stringOr]
  constructor
  · rintro ⟨⟨_, _, _, raw⟩, ⟨hname, hline, hcol, hraw⟩, name, rfl, line, rfl, col, rfl, rfl⟩
    exact ⟨hname, hline, hcol, raw, hraw, rfl⟩
  · obtain ⟨name, line, col, raw⟩ := tag
    rintro ⟨hname, hline, hcol, raw, hraw, rfl⟩
    exact ⟨⟨_, _, _, _⟩, ⟨hname, hline, hcol, hraw⟩, _, rfl, _, rfl, _, rfl, rfl⟩

/-! ## Opening tags -/

theorem AttributeFields.read_eq_ok_iff (f : AttributeFields) (m : String × Json) (f' : AttributeFields) :
    f.read m = .ok f' ↔ Takes ["name"] asString f.name m f'.name ∧ Takes ["value"] asString f.value m f'.value ∧
      Takes ["offset"] asCoord f.offset m f'.offset := by
  obtain ⟨name, v⟩ := m
  cases f
  cases f'
  unfold AttributeFields.read
  split <;> simp_all [Takes, pure_eq_ok_iff, map_fill_eq_ok_iff] <;> grind

theorem AttributeFields.foldlM_eq_ok_iff {f f' : AttributeFields} : ms.foldlM AttributeFields.read f = .ok f' ↔
    Fills ["name"] asString f.name ms f'.name ∧ Fills ["value"] asString f.value ms f'.value ∧
      Fills ["offset"] asCoord f.offset ms f'.offset := by
  induction ms generalizing f with
  | nil => cases f; cases f'; simp [pure_eq_ok_iff, fills_nil]
  | cons m ms ih =>
    simp only [List.foldlM_cons, bind_eq_ok_iff, read_eq_ok_iff, ih, fills_cons]
    constructor
    · rintro ⟨_, ⟨name, value, offset⟩, name', value', offset'⟩
      exact ⟨⟨_, name, name'⟩, ⟨_, value, value'⟩, _, offset, offset'⟩
    · rintro ⟨⟨_, name, name'⟩, ⟨_, value, value'⟩, _, offset, offset'⟩
      exact ⟨⟨_, _, _⟩, ⟨name, value, offset⟩, name', value', offset'⟩

theorem attributeOfItems_eq_ok_iff {items : List Json} {a : Attribute} : attributeOfItems items = .ok a ↔
    (a.offset = 0 ∧ a.value = "" ∧ items = [.string a.name]) ∨
      (a.offset = 0 ∧ items = [.string a.name, .string a.value]) ∨
      items = [.string a.name, .string a.value, coordJson a.offset] := by
  obtain ⟨name, value, offset⟩ := a
  simp only [attributeOfItems, bind_eq_ok_iff, pure_eq_ok_iff, Prod.exists]
  match items with
  | [] => simp [nextField]
  | [_] =>
    simp [nextField_eq_ok_iff, nextFieldOr_nil_eq_ok_iff, noMoreFields, asString_eq_ok_iff]
    grind
  | [_, _] =>
    simp [nextField_eq_ok_iff, nextFieldOr_eq_ok_iff, nextFieldOr_nil_eq_ok_iff, noMoreFields, asString_eq_ok_iff]
    grind
  | [_, _, _] =>
    simp [nextField_eq_ok_iff, nextFieldOr_eq_ok_iff, noMoreFields, asString_eq_ok_iff, asCoord_eq_ok_iff]
  | _ :: _ :: _ :: _ :: _ => simp [nextField_eq_ok_iff, nextFieldOr_eq_ok_iff, noMoreFields]

theorem asAttribute_eq_ok_iff {a : Attribute} : asAttribute v = .ok a ↔ SpellsAttribute a v := by
  cases v with
  | object ms =>
    simp only [asAttribute, bind_eq_ok_iff, AttributeFields.foldlM_eq_ok_iff, need_eq_ok_iff, pure_eq_ok_iff,
      SpellsAttribute, Json.object.injEq, reduceCtorEq, and_false, or_false, exists_eq_left',
      ← fills_string, ← fills_stringOr, ← fills_coordOr]
    constructor
    · rintro ⟨⟨_, value, offset⟩, ⟨hname, hvalue, hoffset⟩, name, rfl, rfl⟩
      exact ⟨hname, ⟨value, hvalue, rfl⟩, offset, hoffset, rfl⟩
    · obtain ⟨name, value, offset⟩ := a
      rintro ⟨hname, ⟨value, hvalue, rfl⟩, offset, hoffset, rfl⟩
      exact ⟨⟨_, _, _⟩, ⟨hname, hvalue, hoffset⟩, _, rfl, rfl⟩
  | array items => simp [asAttribute, SpellsAttribute, attributeOfItems_eq_ok_iff]
  | _ => simp [asAttribute, SpellsAttribute]

theorem OpenTagFields.read_eq_ok_iff (f : OpenTagFields) (m : String × Json) (f' : OpenTagFields) :
    f.read m = .ok f' ↔
    Takes ["tag_name"] asString f.name m f'.name ∧ Takes ["line"] asCoord f.line m f'.line ∧
      Takes ["col"] asCoord f.col m f'.col ∧ Takes ["self_closed", "close"] asBool f.selfClosed m f'.selfClosed ∧
      Takes ["attrs"] (asListOf asAttribute) f.attrs m f'.attrs ∧ Takes ["raw"] asString f.raw m f'.raw := by
  obtain ⟨name, v⟩ := m
  cases f
  cases f'
  unfold OpenTagFields.read
  split <;> simp_all [Takes, pure_eq_ok_iff, map_fill_eq_ok_iff] <;> grind

theorem OpenTagFields.foldlM_eq_ok_iff {f f' : OpenTagFields} : ms.foldlM OpenTagFields.read f = .ok f' ↔
    Fills ["tag_name"] asString f.name ms f'.name ∧ Fills ["line"] asCoord f.line ms f'.line ∧
      Fills ["col"] asCoord f.col ms f'.col ∧ Fills ["self_closed", "close"] asBool f.selfClosed ms f'.selfClosed ∧
      Fills ["attrs"] (asListOf asAttribute) f.attrs ms f'.attrs ∧ Fills ["raw"] asString f.raw ms f'.raw := by
  induction ms generalizing f with
  | nil => cases f; cases f'; simp [pure_eq_ok_iff, fills_nil]
  | cons m ms ih =>
    simp only [List.foldlM_cons, bind_eq_ok_iff, read_eq_ok_iff, ih, fills_cons]
    constructor
    · rintro ⟨_, ⟨name, line, col, closed, attrs, raw⟩, name', line', col', closed', attrs', raw'⟩
      exact ⟨⟨_, name, name'⟩, ⟨_, line, line'⟩, ⟨_, col, col'⟩, ⟨_, closed, closed'⟩, ⟨_, attrs, attrs'⟩, _, raw, raw'⟩
    · rintro ⟨⟨_, name, name'⟩, ⟨_, line, line'⟩, ⟨_, col, col'⟩, ⟨_, closed, closed'⟩, ⟨_, attrs, attrs'⟩, _, raw,
        raw'⟩
      exact ⟨⟨_, _, _, _, _, _⟩, ⟨name, line, col, closed, attrs, raw⟩, name', line', col', closed', attrs', raw'⟩

theorem openTagOfMembers_eq_ok_iff {tag : OpenTag} : openTagOfMembers ms = .ok tag ↔ SpellsOpenTag tag ms := by
  have hattrs (attrs : List Attribute) :
      (∃ items, GivesOr (.array []) ["attrs"] ms (.array items) ∧ List.Forall₂ SpellsAttribute attrs items) ↔
        ∃ slot, Fills ["attrs"] (asListOf asAttribute) none ms slot ∧ slot.getD [] = attrs := by
    simp only [fills_listOr, asAttribute_eq_ok_iff]
    exact exists_congr fun items => and_congr_right fun _ => ⟨.flip, .flip⟩
  simp only [openTagOfMembers, bind_eq_ok_iff, OpenTagFields.foldlM_eq_ok_iff, need_eq_ok_iff, pure_eq_ok_iff,
    SpellsOpenTag, hattrs, ← fills_string, ← fills_coord, ← fills_boolOr, ← fills_stringOr]
  constructor
  · rintro ⟨⟨_, _, _, closed, attrs, raw⟩, ⟨hname, hline, hcol, hclosed, hattrs, hraw⟩, name, rfl, line, rfl, col, rfl,
      rfl⟩
    exact ⟨hname, hline, hcol, ⟨closed, hclosed, rfl⟩, ⟨attrs, hattrs, rfl⟩, raw, hraw, rfl⟩
  · obtain ⟨name, line, col, closed, attrs, raw⟩ := tag
    rintro ⟨hname, hline, hcol, ⟨closed, hclosed, rfl⟩, ⟨attrs, hattrs, rfl⟩, raw, hraw, rfl⟩
    exact ⟨⟨_, _, _, _, _, _⟩, ⟨hname, hline, hcol, hclosed, hattrs, hraw⟩, _, rfl, _, rfl, _, rfl, rfl⟩

/-! ## Events -/

theorem gives_kind_iff : Gives ["kind"] ms v ↔ ∃ m, ms.filter isKind = [m] ∧ m.2 = v := by
  have same : ms.filter (fun m => m.1 ∈ ["kind"]) = ms.filter isKind := List.filter_congr fun m _ => by
    rw [Bool.eq_iff_iff]
    simp [isKind]
  rw [Gives, valuesOf, same, List.map_eq_singleton_iff]

/-- The member that names the variant is taken out before the fields are read. -/
theorem valuesOf_filter_not_isKind (h : "kind" ∉ names) (ms : List (String × Json)) :
    valuesOf names (ms.filter fun m => !isKind m) = valuesOf names ms := by
  unfold valuesOf
  rw [List.filter_filter]
  congr 1
  refine List.filter_congr fun m _ => ?_
  by_cases hm : m.1 = "kind"
  · simp [hm, h]
  · simp [isKind, hm]

theorem spellsFields_filter_not_isKind :
    SpellsFields e (ms.filter fun m => !isKind m) ↔ SpellsFields e ms := by
  cases e <;>
    simp [SpellsFields, SpellsOpenTag, SpellsChunk, SpellsCloseTag, Gives, GivesOr, valuesOf_filter_not_isKind]

theorem asKind_eq_ok_iff {kind : Kind} : asKind v = .ok kind ↔ v = .string kind.name := by
  constructor
  · intro h
    unfold asKind at h
    split at h
    · rename_i s
      split at h
      · rename_i found
        obtain rfl := Except.ok.inj h
        have := List.find?_some found
        simp_all
      · cases h
    · cases h
  · rintro rfl
    simp [asKind, Kind.ofName?_name]

theorem ofMembers_eq_ok_iff {kind : Kind} :
    ofMembers kind ms = .ok e ↔ e.kindName = kind.name ∧ SpellsFields e ms := by
  cases kind <;> cases e <;>
    simp [ofMembers, map_eq_ok_iff, kindName, Kind.name, SpellsFields, openTagOfMembers_eq_ok_iff,
      chunkOfMembers_eq_ok_iff, closeTagOfMembers_eq_ok_iff]

theorem exists_kind_name_eq (e : Event) : ∃ kind : Kind, kind.name = e.kindName := by
  cases e with
  | openTag => exact ⟨.openTag, rfl⟩
  | text => exact ⟨.text, rfl⟩
  | comment => exact ⟨.comment, rfl⟩
  | cdata => exact ⟨.cdata, rfl⟩
  | closeTag => exact ⟨.closeTag, rfl⟩

/-- An object is read as an event exactly if it stands for it. -/
theorem ofJson_object_eq_ok_iff : ofJson (.object ms) = .ok e ↔ Spells e ms := by
  have hread {m : String × Json} (hm : ms.filter isKind = [m]) : ofJson (.object ms) = .ok e ↔
      ∃ kind : Kind, m.2 = .string kind.name ∧ e.kindName = kind.name ∧ SpellsFields e ms := by
    simp only [ofJson, hm, bind_eq_ok_iff, asKind_eq_ok_iff, ofMembers_eq_ok_iff, spellsFields_filter_not_isKind]
  constructor
  · intro h
    obtain ⟨m, -, hm, -⟩ := exists_kind_of_ofJson h
    obtain ⟨kind, hkind, hname, fields⟩ := (hread hm).mp h
    exact ⟨gives_kind_iff.mpr ⟨m, hm, hname ▸ hkind⟩, fields⟩
  · rintro ⟨gives, fields⟩
    obtain ⟨m, hm, hv⟩ := gives_kind_iff.mp gives
    obtain ⟨kind, hname⟩ := exists_kind_name_eq e
    exact (hread hm).mpr ⟨kind, hname ▸ hv, hname.symm, fields⟩

/-! ## Defects -/

/-- The fields of the records of a variant, each with all its names. -/
def fieldsOf : String → List (List String)
  | "tag-start" => [["kind"], ["tag_name"], ["line"], ["col"], ["self_closed", "close"], ["attrs"], ["raw"]]
  | "tag-end" => [["kind"], ["tag_name"], ["line"], ["col"], ["raw"]]
  | _ => [["kind"], ["line"], ["col"], ["raw"]]

/-- The fields that every record of a variant has. -/
def requiredOf : String → List String
  | "tag-start" | "tag-end" => ["tag_name", "line", "col"]
  | _ => ["line", "col"]

/-- An integer of 32 bits. -/
def IsCoord (v : Json) : Prop := ∃ n < UInt32.size, v = .number (.natural n)

/-- The offsets that a value gives which should stand for an attribute. -/
def offsetsOf : Json → List Json
  | .object ms => valuesOf ["offset"] ms
  | .array (_ :: _ :: v :: _) => [v]
  | _ => []

/-- An object has a defect that no event excuses. -/
inductive Defective (ms : List (String × Json)) : Prop
  | noKind (h : valuesOf ["kind"] ms = [])
  | unknownKind (v : Json) (hv : v ∈ valuesOf ["kind"] ms)
      (h : ∀ kind ∈ ["tag-start", "text", "comment", "cdata", "tag-end"], v ≠ .string kind)
  | missing (kind field : String) (hkind : .string kind ∈ valuesOf ["kind"] ms) (hfield : field ∈ requiredOf kind)
      (h : valuesOf [field] ms = [])
  | twice (kind : String) (names : List String) (hkind : .string kind ∈ valuesOf ["kind"] ms)
      (hnames : names ∈ fieldsOf kind) (h : 2 ≤ (valuesOf names ms).length)
  | coord (field : String) (hfield : field ∈ ["line", "col"]) (v : Json) (hv : v ∈ valuesOf [field] ms)
      (h : ¬ IsCoord v)
  | offset (items : List Json) (a v : Json) (hkind : .string "tag-start" ∈ valuesOf ["kind"] ms)
      (hitems : .array items ∈ valuesOf ["attrs"] ms) (ha : a ∈ items) (hv : v ∈ offsetsOf a) (h : ¬ IsCoord v)

theorem isCoord_coordJson (n : Coord) : IsCoord (coordJson n) := ⟨n.toNat, n.toNat_lt, rfl⟩

theorem Gives.eq_of_mem {i : Json} (gives : Gives names ms v) (hi : i ∈ valuesOf names ms) : i = v :=
  List.mem_singleton.mp (gives ▸ hi)

theorem GivesOr.eq_of_mem {i default : Json} (gives : GivesOr default names ms v) (hi : i ∈ valuesOf names ms) :
    i = v := by
  rcases gives with gives | ⟨none, -⟩
  · exact gives.eq_of_mem hi
  · simp [none] at hi

theorem Gives.length_le (gives : Gives names ms v) : (valuesOf names ms).length ≤ 1 := by
  rw [gives]; rfl

theorem GivesOr.length_le {default : Json} (gives : GivesOr default names ms v) : (valuesOf names ms).length ≤ 1 := by
  rcases gives with gives | ⟨none, -⟩
  · exact gives.length_le
  · simp [none]

/-- The offset of an attribute. -/
theorem isCoord_of_spellsAttribute {a : Attribute} (h : SpellsAttribute a j) (hv : v ∈ offsetsOf j) : IsCoord v := by
  rcases h with ⟨ms, rfl, -, -, offset⟩ | ⟨-, -, rfl⟩ | ⟨-, rfl⟩ | rfl
  · exact offset.eq_of_mem hv ▸ isCoord_coordJson _
  · simp [offsetsOf] at hv
  · simp [offsetsOf] at hv
  · simp [offsetsOf] at hv
    exact hv ▸ isCoord_coordJson _

/-- No field is given twice. -/
theorem length_valuesOf_le_one (h : Spells e ms) (hnames : names ∈ fieldsOf e.kindName) :
    (valuesOf names ms).length ≤ 1 := by
  obtain ⟨kind, fields⟩ := h
  cases e with
  | openTag tag =>
    obtain ⟨name, line, col, closed, ⟨_, attrs, -⟩, raw⟩ := fields
    simp only [fieldsOf, kindName, List.mem_cons, List.not_mem_nil, or_false] at hnames
    rcases hnames with rfl | rfl | rfl | rfl | rfl | rfl | rfl
    exacts [kind.length_le, name.length_le, line.length_le, col.length_le, closed.length_le, attrs.length_le,
      raw.length_le]
  | text | comment | cdata =>
    obtain ⟨line, col, raw⟩ := fields
    simp [fieldsOf, kindName] at hnames
    rcases hnames with rfl | rfl | rfl | rfl
    exacts [kind.length_le, line.length_le, col.length_le, raw.length_le]
  | closeTag tag =>
    obtain ⟨name, line, col, raw⟩ := fields
    simp only [fieldsOf, kindName, List.mem_cons, List.not_mem_nil, or_false] at hnames
    rcases hnames with rfl | rfl | rfl | rfl | rfl
    exacts [kind.length_le, name.length_le, line.length_le, col.length_le, raw.length_le]

theorem Spells.line (h : Spells e ms) : Gives ["line"] ms (coordJson e.line) := by
  cases e with
  | openTag => exact h.2.2.1
  | text | comment | cdata => exact h.2.1
  | closeTag => exact h.2.2.1

theorem Spells.col (h : Spells e ms) : Gives ["col"] ms (coordJson e.col) := by
  cases e with
  | openTag => exact h.2.2.2.1
  | text | comment | cdata => exact h.2.2.1
  | closeTag => exact h.2.2.2.1

/-- No required field is missing. -/
theorem exists_gives_of_mem_requiredOf {field : String} (h : Spells e ms) (hfield : field ∈ requiredOf e.kindName) :
    ∃ v, Gives [field] ms v := by
  cases e with
  | openTag tag | closeTag tag =>
    simp only [requiredOf, kindName, List.mem_cons, List.not_mem_nil, or_false] at hfield
    rcases hfield with rfl | rfl | rfl
    exacts [⟨_, h.2.1⟩, ⟨_, h.line⟩, ⟨_, h.col⟩]
  | text | comment | cdata =>
    simp [requiredOf, kindName] at hfield
    rcases hfield with rfl | rfl
    exacts [⟨_, h.line⟩, ⟨_, h.col⟩]

theorem kindName_mem (e : Event) : e.kindName ∈ ["tag-start", "text", "comment", "cdata", "tag-end"] := by
  cases e <;> simp [kindName]

/-- An object with a defect stands for no event. -/
theorem not_spells_of_defective (h : Defective ms) : ¬ Spells e ms := by
  intro spells
  have hname {kind : String} (hkind : .string kind ∈ valuesOf ["kind"] ms) : kind = e.kindName :=
    Json.string.inj (spells.1.eq_of_mem hkind)
  cases h with
  | noKind h =>
    have gives := spells.1
    simp [Gives, h] at gives
  | unknownKind v hv h => exact h _ (kindName_mem e) (spells.1.eq_of_mem hv)
  | missing kind field hkind hfield h =>
    obtain ⟨v, gives⟩ := exists_gives_of_mem_requiredOf spells (hname hkind ▸ hfield)
    simp [h, Gives] at gives
  | twice kind names hkind hnames h =>
    have := length_valuesOf_le_one spells (hname hkind ▸ hnames)
    omega
  | coord field hfield v hv h =>
    simp only [List.mem_cons, List.not_mem_nil, or_false] at hfield
    rcases hfield with rfl | rfl
    · exact h (spells.line.eq_of_mem hv ▸ isCoord_coordJson _)
    · exact h (spells.col.eq_of_mem hv ▸ isCoord_coordJson _)
  | offset items a v hkind hitems ha hv h =>
    cases e with
    | openTag tag =>
      obtain ⟨_, gives, hattrs⟩ := spells.2.2.2.2.2.1
      obtain rfl := Json.array.inj (gives.eq_of_mem hitems)
      obtain ⟨attr, hattr⟩ := exists_of_forall₂ (R := fun j a => SpellsAttribute a j) hattrs.flip a ha
      exact h (isCoord_of_spellsAttribute hattr hv)
    | _ => exact absurd (hname hkind) (by simp [kindName])

end Event

/-- **All or nothing.**  If each item of a list stands for an event, the document has these events in order; if one has
a defect, there is no document. -/
theorem Document.ofEventsText_all_or_nothing (p : Path) (text t : String) (items : List Json)
    (h : Json.parse t = .ok (.array items)) :
    (∀ events, List.Forall₂ (fun j e => ∃ ms, j = .object ms ∧ Event.Spells e ms) items events →
      ofEventsText p text t = .ok ⟨p, text, events, 0⟩) ∧
    ((∃ ms, .object ms ∈ items ∧ Event.Defective ms) → ∃ r, ofEventsText p text t = .error r) := by
  constructor
  · intro events spells
    refine ofEventsText_eq_ok_iff.mpr ⟨items, events, h, spells.imp ?_, rfl⟩
    rintro j e ⟨ms, rfl, hms⟩
    exact Event.ofJson_object_eq_ok_iff.mpr hms
  · rintro ⟨ms, hms, defective⟩
    cases hd : ofEventsText p text t with
    | error r => exact ⟨r, rfl⟩
    | ok d =>
      obtain ⟨items', events, h', reads, -⟩ := ofEventsText_eq_ok_iff.mp hd
      obtain rfl : items = items' := Json.array.inj (Except.ok.inj (h.symm.trans h'))
      obtain ⟨e, he⟩ := Event.exists_of_forall₂ reads _ hms
      exact absurd (Event.ofJson_object_eq_ok_iff.mp he) (Event.not_spells_of_defective defective)

/-- An opening tag and a text; the objects leave out what is empty and have their members in some order. -/
def spelledEvents : String :=
  "[\x7b\"close\":true,\"line\":1,\"kind\":\"tag-start\",\"x\":[],\"col\":2,\"tag_name\":\"a\"," ++
    "\"attrs\":[\x7b\"name\":\"b\"\x7d]\x7d,\x7b\"col\":9,\"kind\":\"text\",\"line\":1\x7d]"

/-- A text and an opening tag whose field for self-closing stands under both of its names. -/
def brokenEvents : String :=
  "[\x7b\"kind\":\"text\",\"line\":1,\"col\":1\x7d,\x7b\"kind\":\"tag-start\",\"tag_name\":\"a\",\"line\":1," ++
    "\"col\":1,\"self_closed\":true,\"close\":true\x7d]"

set_option maxRecDepth 20000 in
theorem Document.ofEventsText_all_or_nothing_samples :
    ofEventsText ⟨"a.isml"⟩ "" spelledEvents =
      .ok ⟨⟨"a.isml"⟩, "", [.openTag ⟨"a", 1, 2, true, [⟨"b", "", 0⟩], ""⟩, .text ⟨1, 9, ""⟩], 0⟩ ∧
    ∃ r, ofEventsText ⟨"a.isml"⟩ "" brokenEvents = .error r := by
  constructor
  · refine (ofEventsText_all_or_nothing _ _ spelledEvents _ rfl).1 _ (.cons ⟨_, rfl, ?_⟩ (.cons ⟨_, rfl, ?_⟩ .nil))
    · have attr : Event.SpellsAttribute ⟨"b", "", 0⟩ (.object [("name", .string "b")]) :=
        .inl ⟨_, rfl, rfl, .inr ⟨rfl, rfl⟩, .inr ⟨rfl, rfl⟩⟩
      exact ⟨rfl, rfl, rfl, rfl, .inl rfl, ⟨_, .inl rfl, .cons attr .nil⟩, .inr ⟨rfl, rfl⟩⟩
    · exact ⟨rfl, rfl, rfl, .inr ⟨rfl, rfl⟩⟩
  · exact (ofEventsText_all_or_nothing _ _ brokenEvents _ rfl).2 ⟨_, .tail _ (.head _),
      .twice "tag-start" ["self_closed", "close"] (.head _) (by decide) (by decide)⟩

end TagLint

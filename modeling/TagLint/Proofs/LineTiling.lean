import Mathlib.Data.List.Chain
import TagLint.Proofs.TextSlices
import TagLint.Proofs.TokenRanges

/-!
# Line tiling — lines and terminators that make up a text

* `Terminates feed line terminator`: what stands behind a line up to the end of `feed`.
* `Tiles offset text tiles`: lines with their terminators, one behind the other from a byte offset on.  Every text has
  such tiles, and their lines are those that the text is cut into (`exists_tiles`).
* `Tiling source tiles`: the same said of a string, with its byte offsets (`tiling_of_tiles`).

**`lines_tile`** says which numbers have a line, and that the lines of these numbers are those of a tiling.
-/

namespace TagLint.Text

variable {text line terminator feed : List Char} {offset i : ℕ}

/-! ## Terminators -/

/-- What stands behind a line up to the end of `feed`.  A carriage return in front of `feed` belongs to it, and not to
the line. -/
def Terminates (feed line terminator : List Char) : Prop :=
  terminator = '\r' :: feed ∨ terminator = feed ∧ line.getLast? ≠ some '\r'

theorem exists_terminator (feed body : List Char) :
    ∃ terminator, body ++ feed = dropEnd '\r' body ++ terminator ∧ Terminates feed (dropEnd '\r' body) terminator := by
  rcases dropEnd_eq_iff.mp (Eq.refl (dropEnd '\r' body)) with hreturn | ⟨hbody, hlast⟩
  · refine ⟨'\r' :: feed, ?_, .inl rfl⟩
    nth_rewrite 1 [hreturn]
    rw [List.append_assoc, List.singleton_append]
  · exact ⟨feed, congrArg (· ++ feed) hbody, .inr ⟨rfl, hlast⟩⟩

/-- Up to `feed` a line and its terminator hold no line feed. -/
theorem Terminates.exists_body (h : Terminates feed line terminator) (hline : '\n' ∉ line) :
    ∃ body, '\n' ∉ body ∧ line ++ terminator = body ++ feed := by
  rcases h with rfl | ⟨rfl, -⟩
  · refine ⟨line ++ ['\r'], ?_, by rw [List.append_assoc, List.singleton_append]⟩
    intro hmem
    rcases List.mem_append.mp hmem with hmem | hmem
    · exact hline hmem
    · exact absurd (List.mem_singleton.mp hmem) (by decide)
  · exact ⟨line, hline, rfl⟩

/-! ## Tiles -/

/-- The byte offset at which a line ends. -/
def Line.stop (line : Line) : ℕ := line.offset + byteLength line.text

/-- A line with its terminator. -/
structure Tile where
  line : Line
  terminator : List Char

/-- The part of a text that a tile covers. -/
def Tile.chars (tile : Tile) : List Char := tile.line.text ++ tile.terminator

/-- Tiles that make up a text, the first of them at a byte offset.  Only the last line may be without a line feed, and
then it is not empty, or has a carriage return behind it. -/
inductive Tiles : ℕ → List Char → List Tile → Prop
  | nil (offset : ℕ) : Tiles offset [] []
  | last {offset : ℕ} {line terminator : List Char} (hline : '\n' ∉ line) (hends : Terminates [] line terminator)
      (hne : line ++ terminator ≠ []) : Tiles offset (line ++ terminator) [⟨⟨offset, line⟩, terminator⟩]
  | feed {offset : ℕ} {line terminator rest : List Char} {tiles : List Tile} (hline : '\n' ∉ line)
      (hends : Terminates ['\n'] line terminator)
      (hrest : Tiles (offset + byteLength (line ++ terminator)) rest tiles) :
      Tiles offset (line ++ terminator ++ rest) (⟨⟨offset, line⟩, terminator⟩ :: tiles)

/-- Induction along the lines of a text. -/
theorem lines_induction {motive : List Char → Prop} (nil : motive [])
    (last : ∀ body, '\n' ∉ body → body ≠ [] → motive body)
    (feed : ∀ body rest, '\n' ∉ body → motive rest → motive (body ++ '\n' :: rest)) (text : List Char) :
    motive text := by
  obtain hnone | ⟨body, rest, htext, hbody⟩ := not_mem_or_exists_rest text
  · by_cases hne : text = []
    · rw [hne]
      exact nil
    · exact last text hnone hne
  · rw [htext]
    exact feed body rest hbody (lines_induction nil last feed rest)
termination_by text.length
decreasing_by
  rw [htext, List.length_append, List.length_cons]
  omega

/-- Every text has tiles, and their lines are those that it is cut into. -/
theorem exists_tiles (offset : ℕ) (text : List Char) :
    ∃ tiles, Tiles offset text tiles ∧ tiles.map Tile.line = linesFrom offset (pieces text) := by
  induction text using lines_induction generalizing offset with
  | nil => exact ⟨[], .nil offset, rfl⟩
  | last body hbody hne =>
    obtain ⟨terminator, heq, hends⟩ := exists_terminator [] body
    rw [List.append_nil] at heq
    have htiles : Tiles offset body [⟨⟨offset, dropEnd '\r' body⟩, terminator⟩] := by
      rw [heq] at hne
      nth_rewrite 1 [heq]
      exact .last (not_mem_dropEnd hbody) hends hne
    refine ⟨_, htiles, ?_⟩
    rw [pieces_of_not_mem hbody hne, linesFrom, dropEnd_of_not_mem hbody]
    rfl
  | feed body rest hbody ih =>
    obtain ⟨terminator, heq, hends⟩ := exists_terminator ['\n'] body
    obtain ⟨tiles, htiles, hlines⟩ := ih (offset + byteLength (body ++ ['\n']))
    have hall : Tiles offset (body ++ ['\n'] ++ rest) (⟨⟨offset, dropEnd '\r' body⟩, terminator⟩ :: tiles) := by
      rw [heq] at htiles ⊢
      exact .feed (not_mem_dropEnd hbody) hends htiles
    rw [List.append_assoc, List.singleton_append] at hall
    refine ⟨_, hall, ?_⟩
    rw [pieces_append_line_feed hbody, linesFrom, dropEnd_concat, List.map_cons, hlines]

variable {tile : Tile} {tiles : List Tile}

namespace Tiles

theorem flatMap_chars (h : Tiles offset text tiles) : tiles.flatMap Tile.chars = text := by
  induction h with
  | nil => rfl
  | last => rw [List.flatMap_singleton, Tile.chars]
  | feed _ _ _ ih => rw [List.flatMap_cons, Tile.chars, ih]

/-- Every line feed ends a line, and what stands behind the last one is a line unless it is empty. -/
theorem length_eq (h : Tiles offset text tiles) :
    tiles.length = text.count '\n' + if lastLine text = [] then 0 else 1 := by
  induction h with
  | nil => rfl
  | last hline hends hne =>
    obtain ⟨body, hbody, heq⟩ := hends.exists_body hline
    rw [List.append_nil] at heq
    rw [heq] at hne ⊢
    rw [List.count_eq_zero.mpr hbody, lastLine_of_not_mem hbody, if_neg hne]
    rfl
  | @feed _ _ _ rest _ hline hends _ ih =>
    obtain ⟨body, hbody, heq⟩ := hends.exists_body hline
    have hlast : lastLine (body ++ '\n' :: rest) = lastLine rest := by
      rw [lastLine_append_of_mem List.mem_cons_self, lastLine_line_feed_cons]
    rw [heq, List.append_assoc, List.singleton_append, hlast, List.count_append, List.count_eq_zero.mpr hbody,
      List.count_cons_self, List.length_cons, ih]
    omega

theorem offset_head? (h : Tiles offset text tiles) : ∀ tile ∈ tiles.head?, tile.line.offset = offset := by
  intro tile htile
  cases h with
  | nil => cases htile
  | last => cases htile; rfl
  | feed => cases htile; rfl

/-- Each line begins where the terminator before it ends. -/
theorem isChain (h : Tiles offset text tiles) :
    tiles.IsChain fun tile next => next.line.offset = tile.line.stop + byteLength tile.terminator := by
  induction h with
  | nil => exact .nil
  | last => exact .singleton _
  | feed _ _ hrest ih =>
    refine List.isChain_cons.mpr ⟨fun next hnext => ?_, ih⟩
    rw [hrest.offset_head? next hnext, byteLength_append, Line.stop, Nat.add_assoc]

/-- Where a tile is and what it holds.  Only at the end of the text a line may be without a line feed. -/
theorem exists_place (h : Tiles offset text tiles) (hget : tiles[i]? = some tile) :
    ∃ before after, text = before ++ (tile.chars ++ after) ∧ tile.line.offset = offset + byteLength before ∧
      '\n' ∉ tile.line.text ∧ (Terminates ['\n'] tile.line.text tile.terminator ∨
        i + 1 = tiles.length ∧ after = [] ∧ Terminates [] tile.line.text tile.terminator) := by
  induction h generalizing i with
  | nil => cases hget
  | last hline hends =>
    cases i with
    | zero =>
      cases hget
      exact ⟨[], [], (List.append_nil _).symm, rfl, hline, .inr ⟨rfl, rfl, hends⟩⟩
    | succ i => cases hget
  | @feed offset line terminator rest tiles hline hends _ ih =>
    cases i with
    | zero =>
      cases hget
      exact ⟨[], rest, rfl, rfl, hline, .inl hends⟩
    | succ i =>
      obtain ⟨before, after, hrest, hoffset, hnot, hends⟩ := ih hget
      refine ⟨line ++ terminator ++ before, after, ?_, ?_, hnot, ?_⟩
      · rw [hrest, List.append_assoc (line ++ terminator)]
      · rw [hoffset, byteLength_append _ before, Nat.add_assoc]
      · rwa [List.length_cons, Nat.add_right_cancel_iff]

end Tiles

/-! ## Strings -/

/-- A text stands at a byte offset of a string. -/
def StandsAt (source : String) (start : ℕ) (cs : List Char) : Prop :=
  Cuts source start (start + byteLength cs) ∧
    String.Pos.Raw.extract source ⟨start⟩ ⟨start + byteLength cs⟩ = String.ofList cs

theorem standsAt_byteLength {source : String} {as bs cs : List Char} (h : source.toList = as ++ (bs ++ cs)) :
    StandsAt source (byteLength as) bs := by
  unfold StandsAt
  rw [← byteLength_append]
  exact ⟨cuts_byteLength h, extract_byteLength h⟩

/-- Lines with their terminators tile a string.  Together they make it up, the first one from its start and each other
one from where the terminator before it ends; and lines and terminators stand at their byte offsets.  Behind a line
stands a line feed, but behind the last one maybe the end. -/
structure Tiling (source : String) (tiles : List Tile) : Prop where
  together : tiles.flatMap Tile.chars = source.toList
  first : ∀ tile ∈ tiles.head?, tile.line.offset = 0
  next : tiles.IsChain fun tile next => next.line.offset = tile.line.stop + byteLength tile.terminator
  line_at : ∀ tile ∈ tiles, StandsAt source tile.line.offset tile.line.text
  terminator_at : ∀ tile ∈ tiles, StandsAt source tile.line.stop tile.terminator
  not_mem : ∀ tile ∈ tiles, '\n' ∉ tile.line.text
  terminates : ∀ i tile, tiles[i]? = some tile → Terminates ['\n'] tile.line.text tile.terminator ∨
    i + 1 = tiles.length ∧ tile.line.stop + byteLength tile.terminator = source.utf8ByteSize ∧
      Terminates [] tile.line.text tile.terminator

theorem tiling_of_tiles {source : String} (h : Tiles 0 source.toList tiles) : Tiling source tiles where
  together := h.flatMap_chars
  first := h.offset_head?
  next := h.isChain
  line_at := by
    intro tile htile
    obtain ⟨i, hget⟩ := List.getElem?_of_mem htile
    obtain ⟨before, after, htext, hoffset, -⟩ := h.exists_place hget
    rw [Tile.chars, List.append_assoc] at htext
    rw [hoffset, Nat.zero_add]
    exact standsAt_byteLength htext
  terminator_at := by
    intro tile htile
    obtain ⟨i, hget⟩ := List.getElem?_of_mem htile
    obtain ⟨before, after, htext, hoffset, -⟩ := h.exists_place hget
    rw [Tile.chars, List.append_assoc, ← List.append_assoc before] at htext
    rw [Line.stop, hoffset, Nat.zero_add, ← byteLength_append]
    exact standsAt_byteLength htext
  not_mem := by
    intro tile htile
    obtain ⟨i, hget⟩ := List.getElem?_of_mem htile
    obtain ⟨-, -, -, -, hnot, -⟩ := h.exists_place hget
    exact hnot
  terminates := by
    intro i tile hget
    obtain ⟨before, after, htext, hoffset, -, hfeed | ⟨hlast, rfl, hends⟩⟩ := h.exists_place hget
    · exact .inl hfeed
    · have hsize : source.utf8ByteSize = byteLength before + (byteLength tile.line.text + byteLength tile.terminator) := by
        rw [← byteLength_toList, htext, List.append_nil, Tile.chars, byteLength_append, byteLength_append]
      refine .inr ⟨hlast, ?_, hends⟩
      rw [hsize, Line.stop, hoffset]
      omega

/-- **The lines of a string tile it.**  The tiles are as many as there are line feeds, and one more if something stands
behind the last of these.  The numbers from one up to that count have a line, no other number has, and the lines are
those of the tiles in order. -/
theorem lines_tile (source : String) :
    ∃ tiles, Tiling source tiles ∧
      tiles.length = source.toList.count '\n' + (if lastLine source.toList = [] then 0 else 1) ∧
      (∀ number : Coord, (line? source.toList number).isSome ↔ 1 ≤ number.toNat ∧ number.toNat ≤ tiles.length) ∧
      ∀ number : Coord, number ≠ 0 → line? source.toList number = tiles[number.toNat - 1]?.map Tile.line := by
  obtain ⟨tiles, htiles, hlines⟩ := exists_tiles 0 source.toList
  have hget : ∀ number : Coord, number ≠ 0 →
      line? source.toList number = tiles[number.toNat - 1]?.map Tile.line := by
    intro number hzero
    rw [line?, if_neg hzero, lines, ← hlines, List.getElem?_map]
  refine ⟨tiles, tiling_of_tiles htiles, htiles.length_eq, fun number => ?_, hget⟩
  by_cases hzero : number = 0
  · have hnone : line? source.toList 0 = none := rfl
    rw [hzero, hnone]
    simp
  · have hpos : number.toNat ≠ 0 := fun h => hzero (UInt32.toNat_inj.mp h)
    rw [hget number hzero, Option.isSome_map, isSome_getElem?]
    omega

/-- An empty line, one that ends in a carriage return, and an end without a line feed. -/
def mixedEnds : String := "é\r\r\n\nb\r"

theorem lines_tile_mixedEnds :
    ∃ tiles, Tiling mixedEnds tiles ∧ tiles.length = 3 ∧
      tiles[2]?.map Tile.line = some ⟨6, ['b']⟩ ∧ (line? mixedEnds.toList 4).isSome = false := by
  obtain ⟨tiles, htiling, hlength, hnumbers, hlines⟩ := lines_tile mixedEnds
  have hthird : line? mixedEnds.toList 3 = some ⟨6, ['b']⟩ := by decide
  have hbeyond : ¬ (line? mixedEnds.toList 4).isSome := by
    rw [hnumbers, hlength]
    decide
  exact ⟨tiles, htiling, hlength, (hlines 3 (by decide)).symm.trans hthird, Bool.eq_false_iff.mpr hbeyond⟩

end TagLint.Text

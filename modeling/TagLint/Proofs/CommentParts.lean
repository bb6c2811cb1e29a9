import Mathlib.Data.List.Basic
import TagLint.Proofs.CommentTolerance

/-!
# Comment parts — what is left when the comments of a text are removed

A text is made of its comments, its string literals and single characters (`parts`).

* `parts_stripComments`: the text without comments has the literals and characters of the text as its parts, and for
  each comment the line feeds that it holds.  A character that is no part of a comment never starts one with what
  comes to stand behind it (`head?_stripComments`).
* `HasMarker t`: outside string literals two slashes, or a slash and a star, follow each other in the text `t`.  It is
  so exactly if `t` has a comment (`hasMarker_iff`).
* **`stripComments_exact`**: removing comments a second time changes nothing, and removing them changes nothing
  exactly if there is no marker.
-/

namespace TagLint.Json

variable {f : List Char → List Char} {t u : List Char} {c : Char}

/-! ## The parts of a text -/

/-- A part of a text. -/
inductive Part
  | comment (text : List Char)
  | literal (text : List Char)
  /-- A character outside comments and string literals. -/
  | char (c : Char)
  deriving DecidableEq

namespace Part

def text : Part → List Char
  | comment text | literal text => text
  | char c => [c]

/-- What is left of a part: the line feeds of a comment, and all of any other part. -/
def left : Part → List Part
  | comment text => (lineFeeds text).map char
  | part => [part]

end Part

/-- The parts of a text, in order. -/
def parts : List Char → List Part
  | [] => []
  | '/' :: '/' :: cs => .comment ('/' :: '/' :: cs.takeWhile (· ≠ '\n')) :: parts (cs.dropWhile (· ≠ '\n'))
  | '/' :: '*' :: cs => .comment ('/' :: '*' :: (splitBlock cs).1) :: parts (splitBlock cs).2
  | '"' :: cs => .literal ('"' :: (splitLiteral cs).1) :: parts (splitLiteral cs).2
  | c :: cs => .char c :: parts cs
termination_by cs => cs.length
decreasing_by
  · have := List.length_dropWhile_le (· ≠ '\n') cs
    simp only [List.length_cons]
    omega
  · have := length_splitBlock_le cs
    simp only [List.length_cons]
    omega
  · have := length_splitLiteral_le cs
    simp only [List.length_cons]
    omega
  · simp

/-- The parts of a text make up the text. -/
theorem flatMap_text_parts (t : List Char) : (parts t).flatMap Part.text = t := by
  fun_induction parts t with
  | case1 => rfl
  | case2 cs ih =>
    rw [List.flatMap_cons, ih]
    simp [Part.text]
  | case3 cs ih =>
    rw [List.flatMap_cons, ih]
    simp [Part.text, splitBlock_append]
  | case4 cs ih =>
    rw [List.flatMap_cons, ih]
    simp [Part.text, splitLiteral_append]
  | case5 c cs _ _ _ ih =>
    rw [List.flatMap_cons, ih]
    rfl

/-- A character that starts neither a comment nor a literal is a part of its own. -/
theorem parts_cons {cs : List Char} (quote : c ≠ '"') (comment : c = '/' → ∀ d ∈ cs.head?, d ≠ '/' ∧ d ≠ '*') :
    parts (c :: cs) = .char c :: parts cs := by
  rw [parts]
  · rintro cs rfl rfl
    exact (comment rfl '/' rfl).1 rfl
  · rintro cs rfl rfl
    exact (comment rfl '*' rfl).2 rfl
  · exact quote

theorem parts_lineFeeds_append (k t : List Char) : parts (lineFeeds k ++ t) = (lineFeeds k).map .char ++ parts t := by
  have feeds : ∀ c ∈ lineFeeds k, c = '\n' := fun c hc => by simpa using (List.mem_filter.mp hc).2
  generalize lineFeeds k = w at feeds
  induction w with
  | nil => rfl
  | cons c w ih =>
    obtain rfl := feeds c (by simp)
    rw [List.cons_append, parts_cons (by decide) (fun same => absurd same (by decide)),
      ih fun d hd => feeds d (by simp [hd])]
    rfl

/-! ## What is left of the parts -/

/-- A text that starts with no slash starts as before. -/
theorem head?_stripComments (h : t.head? ≠ some '/') : (stripComments t).head? = t.head? := by
  cases t with
  | nil => rfl
  | cons c t =>
    have slash : c ≠ '/' := fun same => h (congrArg some same)
    rw [stripComments, stripFrom]
    · rfl
    · exact fun _ same => absurd same slash
    · exact fun _ same => absurd same slash

/-- A literal ends where it ended. -/
theorem splitLiteral_stripComments (cs : List Char) :
    splitLiteral ((splitLiteral cs).1 ++ stripComments (splitLiteral cs).2) =
      ((splitLiteral cs).1, stripComments (splitLiteral cs).2) := by
  obtain closed | open' := literalTail_splitLiteral cs
  · exact splitLiteral_tail closed _
  · have whole := splitLiteral_append cs
    have none : stripComments [] = [] := rfl
    rw [open', List.append_nil] at whole
    rw [open', none, List.append_nil, whole]
    exact Prod.ext whole open'

/-- **What is left.**  The text without comments has the literals and the characters of the text as its parts, and the
line feeds of comments. -/
theorem parts_stripComments (t : List Char) : parts (stripComments t) = (parts t).flatMap Part.left := by
  fun_induction parts t with
  | case1 =>
    have none : stripComments [] = [] := rfl
    rw [none, parts, List.flatMap_nil]
  | case2 cs ih =>
    rw [stripComments_eq, replaceComments, parts_lineFeeds_append, ← stripComments_eq, ih]
    rfl
  | case3 cs ih =>
    rw [stripComments_eq, replaceComments, parts_lineFeeds_append, ← stripComments_eq, ih]
    rfl
  | case4 cs ih =>
    rw [stripComments_eq, replaceComments, ← stripComments_eq, List.cons_append, parts, splitLiteral_stripComments, ih]
    rfl
  | case5 c cs line block quote ih =>
    have kept : stripComments (c :: cs) = c :: stripComments cs := by
      rw [stripComments, stripFrom, if_neg quote]
      · rfl
      · exact line
      · exact block
    -- what comes to stand behind a slash stood behind it before
    have comment : c = '/' → ∀ d ∈ (stripComments cs).head?, d ≠ '/' ∧ d ≠ '*' := by
      rintro rfl d hd
      cases cs with
      | nil => cases hd
      | cons e cs =>
        have slash : e ≠ '/' := fun same => line cs rfl (congrArg (· :: cs) same)
        rw [head?_stripComments (by simpa using slash)] at hd
        obtain rfl : e = d := Option.some.inj hd
        exact ⟨slash, fun same => block cs rfl (congrArg (· :: cs) same)⟩
    rw [kept, parts_cons quote comment, ih]
    rfl

theorem comment_not_mem_left (k : List Char) (part : Part) : .comment k ∉ part.left := by
  cases part <;> simp [Part.left]

theorem comment_not_mem_parts_stripComments (k t : List Char) : .comment k ∉ parts (stripComments t) := by
  rw [parts_stripComments, List.mem_flatMap]
  rintro ⟨part, -, hk⟩
  exact comment_not_mem_left k part hk

/-- A text stays as it is exactly if no part of it is a comment. -/
theorem stripComments_eq_self_iff : stripComments t = t ↔ ∀ k, .comment k ∉ parts t := by
  constructor
  · intro same k
    rw [← same]
    exact comment_not_mem_parts_stripComments k t
  · intro none
    have kept : ∀ part ∈ parts t, part.left = [part] := fun part hpart => by
      cases part with
      | comment k => exact absurd hpart (none k)
      | literal | char => rfl
    calc stripComments t = (parts (stripComments t)).flatMap Part.text := (flatMap_text_parts _).symm
      _ = ((parts t).flatMap Part.left).flatMap Part.text := by rw [parts_stripComments]
      _ = ((parts t).flatMap fun part => [part]).flatMap Part.text := by rw [List.flatMap_congr kept]
      _ = t := by rw [List.flatMap_singleton', flatMap_text_parts]

/-! ## Comment markers -/

/-- A text behind which no string literal is open.  It is read without regard to comments. -/
inductive Outside : List Char → Prop
  | nil : Outside []
  | char {c : Char} {u : List Char} : c ≠ '"' → Outside u → Outside (c :: u)
  | literal {ys u : List Char} : LiteralTail ys → Outside u → Outside ('"' :: ys ++ u)

/-- Outside string literals two slashes, or a slash and a star, follow each other. -/
def HasMarker (t : List Char) : Prop :=
  ∃ u m v, Outside u ∧ (m = '/' ∨ m = '*') ∧ t = u ++ '/' :: m :: v

theorem exists_comment_of_marker {m : Char} {v : List Char} (h : m = '/' ∨ m = '*') :
    ∃ k, .comment k ∈ parts ('/' :: m :: v) := by
  rcases h with rfl | rfl
  · rw [parts]
    exact ⟨_, List.mem_cons_self⟩
  · rw [parts]
    exact ⟨_, List.mem_cons_self⟩

theorem exists_comment_of_outside {m : Char} {v : List Char} (outside : Outside u) (h : m = '/' ∨ m = '*') :
    ∃ k, .comment k ∈ parts (u ++ '/' :: m :: v) := by
  induction outside with
  | nil => exact exists_comment_of_marker h
  | @char c u quote _ ih =>
    obtain ⟨k, hk⟩ := ih
    by_cases comment : c = '/' ∧ ∃ d ∈ (u ++ '/' :: m :: v).head?, d = '/' ∨ d = '*'
    · -- the character starts a comment with what follows it
      obtain ⟨rfl, d, hd, marker⟩ := comment
      obtain ⟨w, hw⟩ := List.head?_eq_some_iff.mp hd
      rw [List.cons_append, hw]
      exact exists_comment_of_marker marker
    · rw [List.cons_append, parts_cons quote fun same d hd => not_or.mp fun marker => comment ⟨same, d, hd, marker⟩]
      exact ⟨k, List.mem_cons_of_mem _ hk⟩
  | @literal ys u tail _ ih =>
    obtain ⟨k, hk⟩ := ih
    rw [List.append_assoc, List.cons_append, parts, splitLiteral_tail tail]
    exact ⟨k, List.mem_cons_of_mem _ hk⟩

theorem hasMarker_of_comment {k : List Char} (h : .comment k ∈ parts t) : HasMarker t := by
  fun_induction parts t with
  | case1 => cases h
  | case2 cs => exact ⟨[], '/', cs, .nil, .inl rfl, rfl⟩
  | case3 cs => exact ⟨[], '*', cs, .nil, .inr rfl, rfl⟩
  | case4 cs ih =>
    have later : .comment k ∈ parts (splitLiteral cs).2 := (List.mem_cons.mp h).resolve_left (by simp)
    obtain ⟨u, m, v, outside, marker, rest⟩ := ih later
    obtain closed | open' := literalTail_splitLiteral cs
    · refine ⟨'"' :: (splitLiteral cs).1 ++ u, m, v, .literal closed outside, marker, ?_⟩
      rw [List.append_assoc, ← rest, List.cons_append, splitLiteral_append]
    · rw [open', parts] at later
      cases later
  | case5 c cs _ _ quote ih =>
    obtain ⟨u, m, v, outside, marker, rest⟩ := ih ((List.mem_cons.mp h).resolve_left (by simp))
    exact ⟨c :: u, m, v, .char quote outside, marker, congrArg (c :: ·) rest⟩

/-- There is a marker outside string literals exactly if some part is a comment. -/
theorem hasMarker_iff : HasMarker t ↔ ∃ k, .comment k ∈ parts t := by
  constructor
  · rintro ⟨u, m, v, outside, marker, rfl⟩
    exact exists_comment_of_outside outside marker
  · rintro ⟨k, hk⟩
    exact hasMarker_of_comment hk

theorem not_hasMarker_stripComments (t : List Char) : ¬ HasMarker (stripComments t) := fun marker => by
  obtain ⟨k, hk⟩ := hasMarker_iff.mp marker
  exact comment_not_mem_parts_stripComments k t hk

/-- **Removing comments.**  Done twice it is as done once, and it changes nothing exactly if there is no comment marker
outside string literals.  What is left has no such marker, and it is the literals and other characters of the text, as
they were and in their order, with the line feeds of the comments. -/
theorem stripComments_exact (t : List Char) :
    stripComments (stripComments t) = stripComments t ∧
    (stripComments t = t ↔ ¬ HasMarker t) ∧
    ¬ HasMarker (stripComments t) ∧
    (parts t).flatMap Part.text = t ∧ parts (stripComments t) = (parts t).flatMap Part.left := by
  have fixed {s : List Char} : stripComments s = s ↔ ¬ HasMarker s := by
    rw [stripComments_eq_self_iff, hasMarker_iff, not_exists]
  exact ⟨fixed.mpr (not_hasMarker_stripComments t), fixed, not_hasMarker_stripComments t, flatMap_text_parts t,
    parts_stripComments t⟩

end TagLint.Json

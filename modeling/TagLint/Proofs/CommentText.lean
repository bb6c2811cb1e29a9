import Mathlib.Data.List.TakeWhile
import TagLint.Json.Comment

/-!
# Comment text — the comments of a text, one after the other

* `splitBlock`, `splitLiteral`: the rest of a block comment or of a string literal, and what follows it.
* `replaceComments f t`: the text `t` with every comment `k` outside string literals replaced by `f k`.
* **`stripComments_eq`**: removing comments replaces each by its line feeds.
-/

namespace TagLint.Json

/-- After the opening of a block comment: its text through the next star and slash, and what follows. -/
def splitBlock : List Char → List Char × List Char
  | [] => ([], [])
  | '*' :: '/' :: cs => (['*', '/'], cs)
  | c :: cs => (c :: (splitBlock cs).1, (splitBlock cs).2)

/-- After the opening quote of a string literal: its text through the closing quote, and what follows. -/
def splitLiteral : List Char → List Char × List Char
  | [] => ([], [])
  | '"' :: cs => (['"'], cs)
  | '\\' :: c :: cs => ('\\' :: c :: (splitLiteral cs).1, (splitLiteral cs).2)
  | c :: cs => (c :: (splitLiteral cs).1, (splitLiteral cs).2)

theorem splitBlock_append (cs : List Char) : (splitBlock cs).1 ++ (splitBlock cs).2 = cs := by
  fun_induction splitBlock cs <;> simp_all

theorem splitLiteral_append (cs : List Char) : (splitLiteral cs).1 ++ (splitLiteral cs).2 = cs := by
  fun_induction splitLiteral cs <;> simp_all

theorem length_splitBlock_le (cs : List Char) : (splitBlock cs).2.length ≤ cs.length := by
  have same := congrArg List.length (splitBlock_append cs)
  rw [List.length_append] at same
  omega

theorem length_splitLiteral_le (cs : List Char) : (splitLiteral cs).2.length ≤ cs.length := by
  have same := congrArg List.length (splitLiteral_append cs)
  rw [List.length_append] at same
  omega

/-- The text with every comment `k` outside string literals replaced by `f k`.  A line comment ends before the next
line feed, a block comment behind the next star and slash; one that is not closed ends with the text. -/
def replaceComments (f : List Char → List Char) : List Char → List Char
  | [] => []
  | '/' :: '/' :: cs =>
    f ('/' :: '/' :: cs.takeWhile (· ≠ '\n')) ++ replaceComments f (cs.dropWhile (· ≠ '\n'))
  | '/' :: '*' :: cs => f ('/' :: '*' :: (splitBlock cs).1) ++ replaceComments f (splitBlock cs).2
  | '"' :: cs => '"' :: (splitLiteral cs).1 ++ replaceComments f (splitLiteral cs).2
  | c :: cs => c :: replaceComments f cs
termination_by cs => cs.length
decreasing_by
  · have := List.length_dropWhile_le (· ≠ '\n') cs
    simp only [List.length_cons]
    omega
  · have := length_splitBlock_le cs
    simp only [List.length_cons]
    omega
  · have := length_splitLiteral_le cs
    simp only [List.length_cons]
    omega
  · simp

variable {f : List Char → List Char}

/-- A character that starts neither a comment nor a literal stays. -/
theorem replaceComments_cons {c : Char} {cs : List Char} (quote : c ≠ '"')
    (comment : c = '/' → ∀ d ∈ cs.head?, d ≠ '/' ∧ d ≠ '*') :
    replaceComments f (c :: cs) = c :: replaceComments f cs := by
  rw [replaceComments]
  · rintro cs rfl rfl
    exact (comment rfl '/' rfl).1 rfl
  · rintro cs rfl rfl
    exact (comment rfl '*' rfl).2 rfl
  · exact quote

/-- How a text starts: it is empty, or starts with a comment, with a literal or with another character. -/
theorem replaceComments_cases (t : List Char) :
    t = [] ∨ (∃ k t', (∀ f, replaceComments f t = f k ++ replaceComments f t') ∧ t'.length < t.length) ∨
      (∃ cs, t = '"' :: cs) ∨ ∃ c t', c ≠ '"' ∧ t = c :: t' ∧ ∀ f, replaceComments f t = c :: replaceComments f t' := by
  fun_cases replaceComments id t with
  | case1 => exact .inl rfl
  | case2 cs =>
    have shorter := List.length_dropWhile_le (· ≠ '\n') cs
    refine .inr (.inl ⟨'/' :: '/' :: cs.takeWhile (· ≠ '\n'), cs.dropWhile (· ≠ '\n'), fun f => ?_, ?_⟩)
    · rw [replaceComments]
    · simp only [List.length_cons]
      omega
  | case3 cs =>
    have shorter := length_splitBlock_le cs
    refine .inr (.inl ⟨'/' :: '*' :: (splitBlock cs).1, (splitBlock cs).2, fun f => ?_, ?_⟩)
    · rw [replaceComments]
    · simp only [List.length_cons]
      omega
  | case4 cs => exact .inr (.inr (.inl ⟨cs, rfl⟩))
  | case5 c cs line block quote =>
    refine .inr (.inr (.inr ⟨c, cs, quote, rfl, fun f => ?_⟩))
    rw [replaceComments]
    · exact line
    · exact block
    · exact quote

/-! ## Removing comments -/

/-- The line feeds of a comment, which stay when it is removed. -/
def lineFeeds (k : List Char) : List Char := k.filter (· = '\n')

theorem stripFrom_lineComment (cs : List Char) :
    stripFrom .lineComment cs = stripFrom .code (cs.dropWhile (· ≠ '\n')) := by
  induction cs with
  | nil => rfl
  | cons c cs ih =>
    by_cases feed : c = '\n'
    · subst feed
      simp [stripFrom]
    · simp [stripFrom, feed, ih]

/-- A star that no slash follows closes nothing. -/
theorem stripFrom_star {cs : List Char} (open' : cs.head? ≠ some '/') :
    stripFrom (.blockComment true) cs = stripFrom (.blockComment false) cs := by
  cases cs with
  | nil => rfl
  | cons c cs =>
    have hc : c ≠ '/' := by simpa using open'
    simp [stripFrom, hc]

theorem stripFrom_blockComment (cs : List Char) :
    stripFrom (.blockComment false) cs = lineFeeds (splitBlock cs).1 ++ stripFrom .code (splitBlock cs).2 := by
  fun_induction splitBlock cs with
  | case1 => rfl
  | case2 cs => simp [stripFrom, lineFeeds]
  | case3 c cs other ih =>
    by_cases star : c = '*'
    · subst star
      have open' : cs.head? ≠ some '/' := fun head => by
        obtain ⟨cs', rfl⟩ := List.head?_eq_some_iff.mp head
        exact other cs' rfl rfl
      simp [stripFrom, lineFeeds, stripFrom_star open', ih]
    · by_cases feed : c = '\n'
      · subst feed
        simp [stripFrom, lineFeeds, ih]
      · simp [stripFrom, lineFeeds, star, feed, ih]

theorem stripFrom_literal (cs : List Char) :
    stripFrom .literal cs = (splitLiteral cs).1 ++ stripFrom .code (splitLiteral cs).2 := by
  fun_induction splitLiteral cs with
  | case1 => rfl
  | case2 cs => simp [stripFrom]
  | case3 c cs ih => simp [stripFrom, ih]
  | case4 c cs quote escape ih =>
    by_cases back : c = '\\'
    · subst back
      cases cs with
      | nil => rfl
      | cons d cs => exact absurd rfl (escape d cs rfl)
    · have quote : c ≠ '"' := quote
      simp [stripFrom, quote, back, ih]

/-- Removing comments replaces each by its line feeds. -/
theorem stripComments_eq (t : List Char) : stripComments t = replaceComments lineFeeds t := by
  unfold stripComments
  fun_induction replaceComments lineFeeds t with
  | case1 => rfl
  | case2 cs ih =>
    have none : lineFeeds ('/' :: '/' :: cs.takeWhile (· ≠ '\n')) = [] := by
      refine List.filter_eq_nil_iff.mpr fun c hc => ?_
      simp only [List.mem_cons] at hc
      rcases hc with rfl | rfl | hc
      · decide
      · decide
      · simpa using List.mem_takeWhile_imp hc
    rw [none, List.nil_append, ← ih, stripFrom, stripFrom_lineComment]
  | case3 cs ih =>
    rw [stripFrom, stripFrom_blockComment, ih]
    simp [lineFeeds]
  | case4 cs ih =>
    rw [List.cons_append, ← ih, ← stripFrom_literal]
    simp [stripFrom]
  | case5 c cs line block quote ih =>
    rw [← ih, stripFrom, if_neg quote]
    · exact line
    · exact block

end TagLint.Json

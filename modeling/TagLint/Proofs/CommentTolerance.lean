import TagLint.Proofs.CommentText
import TagLint.Proofs.JsonSpelling
import TagLint.Rule.Config

/-!
# Comment tolerance — comments stand for white space

What a text spells is not changed by comments between its tokens, whether they are removed or replaced by spaces.

* `spells_replaceComments`: a text spells the same lexemes with its comments removed as with spaces for them.
* `WithComments t t'`: the text `t'` is `t` with closed comments inserted between its tokens.
* **`RuleConfig.parse_of_read`**: a configuration that is read with spaces for the comments, without comments, or
  before comments were inserted is the one that is parsed.
-/

namespace TagLint.Json

variable {f : List Char → List Char} {t t' s x ys : List Char} {l : Lexeme} {ls : List Lexeme}

/-! ## Tokens hold no comments -/

theorem splitLiteral_tail (tail : LiteralTail ys) (t : List Char) : splitLiteral (ys ++ t) = (ys, t) := by
  induction tail with
  | close => rfl
  | escape c _ ih => simp [splitLiteral, ih]
  | @char c ys quote back _ ih =>
    rw [List.cons_append, splitLiteral, ih]
    · exact quote
    · exact fun _ _ same => absurd same back

/-- A literal is closed, or takes all of the text. -/
theorem literalTail_splitLiteral (cs : List Char) : LiteralTail (splitLiteral cs).1 ∨ (splitLiteral cs).2 = [] := by
  fun_induction splitLiteral cs with
  | case1 => exact .inr rfl
  | case2 cs => exact .inl .close
  | case3 c cs ih => exact ih.imp_left (.escape c)
  | case4 c cs quote escape ih =>
    by_cases back : c = '\\'
    · cases cs with
      | nil => exact .inr rfl
      | cons d cs => exact absurd rfl (escape d cs back)
    · exact ih.imp_left (.char quote back)

theorem replaceComments_space {c : Char} (hc : isSpace c) : replaceComments f (c :: t) = c :: replaceComments f t :=
  replaceComments_cons (by rintro rfl; exact absurd hc (by decide))
    (by rintro rfl; exact absurd hc (by decide))

theorem replaceComments_plain (plain : ∀ c ∈ x, isPlain c) (t : List Char) :
    replaceComments f (x ++ t) = x ++ replaceComments f t := by
  induction x with
  | nil => rfl
  | cons c x ih =>
    obtain ⟨-, quote, slash⟩ := isPlain_iff.mp (plain c (by simp))
    rw [List.cons_append, replaceComments_cons quote fun same => absurd same slash,
      ih fun d hd => plain d (by simp [hd]), List.cons_append]

theorem replaceComments_word (shape : WordShape x) (t : List Char) :
    replaceComments f (x ++ t) = x ++ replaceComments f t := by
  cases shape with
  | plain _ plain => exact replaceComments_plain plain t
  | literal tail => simp [replaceComments, splitLiteral_tail tail]

/-- A text that spells lexemes has no comments. -/
theorem Spells.replaceComments_eq (h : Spells t ls) : replaceComments f t = t := by
  induction h with
  | nil => rw [replaceComments]
  | space hc _ ih => rw [replaceComments_space hc, ih]
  | token spelled _ _ ih => rw [replaceComments_word spelled.shape, ih]

/-! ## A space for every comment -/

/-- White space, of at least one character. -/
def IsGap (w : List Char) : Prop := w ≠ [] ∧ ∀ c ∈ w, isSpace c

section Gap

variable {g : List Char → List Char}

/-- A plain character of the text with gaps is one of the text itself. -/
theorem exists_of_plain_head {c : Char} (gap : ∀ k, IsGap (g k)) (plain : isPlain c)
    (h : replaceComments g t = c :: s) : ∃ t', t = c :: t' ∧ replaceComments g t' = s := by
  obtain ⟨space, quote, -⟩ := isPlain_iff.mp plain
  obtain rfl | ⟨k, t', cut, -⟩ | ⟨cs, rfl⟩ | ⟨d, t', -, rfl, cut⟩ := replaceComments_cases t
  · simp [replaceComments] at h
  · obtain ⟨d, w, first⟩ := List.exists_cons_of_ne_nil (gap k).1
    rw [cut, first] at h
    obtain rfl : d = c := (List.cons.inj h).1
    have white : isSpace d := (gap k).2 d (by simp [first])
    simp [space] at white
  · simp only [replaceComments, List.cons_append, List.cons.injEq] at h
    exact absurd h.1.symm quote
  · rw [cut] at h
    obtain ⟨rfl, rfl⟩ := List.cons.inj h
    exact ⟨t', rfl, rfl⟩

/-- A string literal of the text with its comments replaced stands in the text itself. -/
theorem exists_of_literalTail {cs : List Char} (tail : LiteralTail ys)
    (h : (splitLiteral cs).1 ++ replaceComments g (splitLiteral cs).2 = ys ++ s) :
    cs = ys ++ (splitLiteral cs).2 ∧ replaceComments g (splitLiteral cs).2 = s := by
  have whole := splitLiteral_append cs
  obtain closed | rest := literalTail_splitLiteral cs
  · have same := congrArg splitLiteral h
    rw [splitLiteral_tail closed, splitLiteral_tail tail] at same
    obtain ⟨first, rfl⟩ := Prod.mk.inj same
    exact ⟨by rw [← first, whole], rfl⟩
  · rw [rest, List.append_nil] at whole
    rw [rest, replaceComments, List.append_nil, whole] at h
    have same : (splitLiteral cs).2 = s := by rw [h, splitLiteral_tail tail]
    rw [rest] at same ⊢
    subst same
    exact ⟨h, by rw [replaceComments]⟩

theorem exists_of_plain (gap : ∀ k, IsGap (g k)) (plain : ∀ c ∈ x, isPlain c) (h : replaceComments g t = x ++ s) :
    ∃ t', t = x ++ t' ∧ replaceComments g t' = s := by
  induction x generalizing t with
  | nil => exact ⟨t, rfl, h⟩
  | cons c x ih =>
    obtain ⟨t₁, rfl, later⟩ := exists_of_plain_head gap (plain c (by simp)) h
    obtain ⟨t', rfl, rest⟩ := ih (fun d hd => plain d (by simp [hd])) later
    exact ⟨t', rfl, rest⟩

/-- The text of a token in the text with gaps stands in the text itself. -/
theorem exists_of_word (gap : ∀ k, IsGap (g k)) (shape : WordShape x) (h : replaceComments g t = x ++ s) :
    ∃ t', t = x ++ t' ∧ replaceComments g t' = s := by
  cases shape with
  | plain _ plain => exact exists_of_plain gap plain h
  | @literal ys tail =>
    obtain rfl | ⟨k, t', cut, -⟩ | ⟨cs, rfl⟩ | ⟨d, t', quote, rfl, cut⟩ := replaceComments_cases t
    · simp [replaceComments] at h
    · obtain ⟨d, w, first⟩ := List.exists_cons_of_ne_nil (gap k).1
      rw [cut, first] at h
      obtain rfl : d = '"' := (List.cons.inj h).1
      have white : isSpace '"' := (gap k).2 '"' (by simp [first])
      exact absurd white (by decide)
    · rw [replaceComments] at h
      obtain ⟨same, rest⟩ := exists_of_literalTail tail (List.cons.inj h).2
      exact ⟨(splitLiteral cs).2, congrArg _ same, rest⟩
    · rw [cut] at h
      exact absurd (List.cons.inj h).1 quote

/-- A text spells the same lexemes whatever white space stands for its comments, none included, if it spells them
with a gap for each. -/
theorem spells_of_gaps (gap : ∀ k, IsGap (g k)) (white : ∀ k, ∀ c ∈ f k, isSpace c)
    (h : Spells (replaceComments g t) ls) : Spells (replaceComments f t) ls := by
  -- a token takes more than one character, so the induction is on the length of the text
  induction len : t.length using Nat.strong_induction_on generalizing t ls with
  | _ n ih =>
    subst len
    generalize same : replaceComments g t = u at h
    obtain rfl | ⟨k, t', cut, shorter⟩ | start := replaceComments_cases t
    · rw [replaceComments] at same ⊢
      rwa [same]
    · rw [← same, cut] at h
      rw [cut]
      exact (ih _ shorter (h.of_append_space (gap k).2) rfl).append_space (white k)
    · cases h with
      | nil =>
        obtain ⟨cs, rfl⟩ | ⟨d, t', -, rfl, cut⟩ := start
        · simp [replaceComments] at same
        · simp [cut] at same
      | @space c u ls hc h =>
        obtain ⟨cs, rfl⟩ | ⟨d, t', -, rfl, cut⟩ := start
        · rw [replaceComments] at same
          rw [← (List.cons.inj same).1] at hc
          exact absurd hc (by decide)
        · rw [cut] at same ⊢
          obtain ⟨rfl, rfl⟩ := List.cons.inj same
          exact .space hc (ih _ (by simp) h rfl)
      | @token x u l ls spelled ends h =>
        obtain ⟨t', rfl, rfl⟩ := exists_of_word gap spelled.shape same
        rw [replaceComments_word spelled.shape]
        have shorter := spelled.shape.length_lt_append t'
        exact .token spelled ends (ih _ shorter h rfl)

end Gap

/-- What stands for a comment that is replaced. -/
def oneSpace (_ : List Char) : List Char := [' ']

/-- **Spaces for comments.**  A text spells the same lexemes whatever white space stands for its comments, none
included, if it spells them with a space for each. -/
theorem spells_replaceComments (white : ∀ k, ∀ c ∈ f k, isSpace c) (h : Spells (replaceComments oneSpace t) ls) :
    Spells (replaceComments f t) ls :=
  spells_of_gaps (fun _ => ⟨by simp [oneSpace], by simp [oneSpace, isSpace]⟩) white h

theorem isSpace_of_mem_lineFeeds {k : List Char} : ∀ c ∈ lineFeeds k, isSpace c := fun c hc => by
  obtain rfl : c = '\n' := by simpa using (List.mem_filter.mp hc).2
  decide

/-! ## Comments between tokens -/

/-- A comment that is closed: by a line feed, or by the only star and slash after its opening. -/
inductive ClosedComment : List Char → Prop
  | line {body : List Char} : '\n' ∉ body → ClosedComment ('/' :: '/' :: body ++ ['\n'])
  | block {body : List Char} : ¬ ['*', '/'] <:+: body → ClosedComment ('/' :: '*' :: body ++ ['*', '/'])

/-- The second text is the first one with closed comments inserted between its tokens.  A line comment may also be
the last thing in the text. -/
inductive WithComments : List Char → List Char → Prop
  | nil : WithComments [] []
  | last {body : List Char} : '\n' ∉ body → WithComments [] ('/' :: '/' :: body)
  | comment {k t t' : List Char} : ClosedComment k → WithComments t t' → WithComments t (k ++ t')
  | space {c : Char} {t t' : List Char} : isSpace c → WithComments t t' → WithComments (c :: t) (c :: t')
  | token {x t t' : List Char} {l : Lexeme} :
    nextToken (x ++ t) = ⟨l, x ++ t, t⟩ → WithComments t t' → WithComments (x ++ t) (x ++ t')

theorem ne_feed_of_not_mem {body : List Char} (feed : '\n' ∉ body) : ∀ c ∈ body, decide (c ≠ '\n') = true :=
  fun c hc => by
    simp only [decide_eq_true_eq]
    rintro rfl
    exact feed hc

theorem splitBlock_body {body : List Char} (inside : ¬ ['*', '/'] <:+: body) (t : List Char) :
    splitBlock (body ++ '*' :: '/' :: t) = (body ++ ['*', '/'], t) := by
  induction body with
  | nil => rfl
  | cons c body ih =>
    have tail : ¬ ['*', '/'] <:+: body := fun h => inside (h.trans (List.suffix_cons c body).isInfix)
    rw [List.cons_append, splitBlock, ih tail, List.cons_append]
    -- neither the body alone nor its last star with the slash behind it closes the comment
    rintro cs rfl same
    cases body with
    | nil => exact absurd (List.cons.inj same).1 (by decide)
    | cons d body =>
      obtain ⟨rfl, -⟩ := List.cons.inj same
      exact inside ⟨[], body, rfl⟩

/-- White space is left of a closed comment. -/
theorem ClosedComment.exists_replaced {k : List Char} (closed : ClosedComment k) (white : ∀ k, ∀ c ∈ f k, isSpace c) :
    ∃ w, (∀ c ∈ w, isSpace c) ∧ ∀ t, replaceComments f (k ++ t) = w ++ replaceComments f t := by
  cases closed with
  | @line body feed =>
    refine ⟨f ('/' :: '/' :: body) ++ ['\n'], ?_, fun t => ?_⟩
    · exact List.forall_mem_append.mpr ⟨white _, List.forall_mem_singleton.mpr rfl⟩
    · have inside := ne_feed_of_not_mem feed
      have cut : '/' :: '/' :: body ++ ['\n'] ++ t = '/' :: '/' :: (body ++ '\n' :: t) := by simp
      rw [cut, replaceComments, List.takeWhile_append_of_pos inside, List.dropWhile_append_of_pos inside]
      simp [replaceComments_space (c := '\n') (by decide)]
  | @block body inside =>
    refine ⟨f ('/' :: '*' :: body ++ ['*', '/']), white _, fun t => ?_⟩
    simp [replaceComments, splitBlock_body inside]

/-- **Comments between tokens.** -/
theorem spells_withComments (white : ∀ k, ∀ c ∈ f k, isSpace c) (inserted : WithComments t t') (h : Spells t ls) :
    Spells (replaceComments f t') ls := by
  induction inserted generalizing ls with
  | nil => rwa [replaceComments]
  | @last body feed =>
    have inside := ne_feed_of_not_mem feed
    have none : body.dropWhile (· ≠ '\n') = [] := List.dropWhile_eq_nil_iff.mpr inside
    rw [replaceComments, none, replaceComments]
    exact h.append_space (white _)
  | comment closed _ ih =>
    obtain ⟨w, hw, replaced⟩ := closed.exists_replaced white
    rw [replaced]
    exact (ih h).append_space hw
  | space hc _ ih =>
    rw [replaceComments_space hc]
    exact .space hc (ih (h.tail_of_space hc))
  | @token x t t' l next _ ih =>
    cases x with
    | nil => exact ih h
    | cons c x =>
      obtain ⟨spelled, ls, rfl, ends, rest⟩ := h.exists_of_token next
      rw [replaceComments_word spelled.shape]
      exact .token spelled ends (ih rest)

end TagLint.Json

/-! ## Configurations -/

namespace TagLint.RuleConfig

open Json (Spells exists_spells ofLexeme_guardObject readWith_of_spells spells_replaceComments spells_withComments
  isSpace_of_mem_lineFeeds stripComments_eq replaceComments lineFeeds oneSpace WithComments)

variable {C : RuleConfig} {ls : List Json.Lexeme}

theorem read_eq_ok_iff {t : List Char} : read t = .ok C ↔
    ∃ ms, Json.readWith Json.guardObject t = .ok (.object ms) ∧ ofMembers ms = C := by
  simp only [read, Json.readObject, bind, Except.bind, pure, Except.pure, throw, throwThe, MonadExceptOf.throw]
  cases Json.readWith Json.guardObject t with
  | error f => simp [Except.map]
  | ok j => cases j <;> simp [Except.map]

theorem parse_eq_ok_iff {t : String} : parse t = .ok C ↔ read (replaceComments lineFeeds t.toList) = .ok C := by
  simp only [parse, stripComments_eq]
  cases read (replaceComments lineFeeds t.toList) <;> simp [Except.mapError]

theorem exists_spells_of_read {t : List Char} (h : read t = .ok C) : ∃ ls, Spells t ls := by
  obtain ⟨ms, h, -⟩ := read_eq_ok_iff.mp h
  exact exists_spells h

/-- A configuration depends on the lexemes that its text spells, and on nothing else. -/
theorem read_of_spells {t t' : List Char} (ht : Spells t ls) (ht' : Spells t' ls) (h : read t = .ok C) :
    read t' = .ok C := by
  obtain ⟨ms, h, same⟩ := read_eq_ok_iff.mp h
  exact read_eq_ok_iff.mpr ⟨ms, readWith_of_spells ofLexeme_guardObject ht ht' h, same⟩

/-- **Comment tolerance.**  Whenever a strict reader accepts the text with a space for each comment, the text as it
is gives the same configuration.  So does a text that the strict reader accepts as it stands, whatever its strings
hold, and such a text with closed comments inserted between its tokens. -/
theorem parse_of_read (t : String) (C : RuleConfig) :
    (read (replaceComments (fun _ => [' ']) t.toList) = .ok C → parse t = .ok C) ∧
    (read t.toList = .ok C → parse t = .ok C ∧
      ∀ t' : String, WithComments t.toList t'.toList → parse t' = .ok C) := by
  refine ⟨fun h => ?_, fun h => ⟨?_, fun t' inserted => ?_⟩⟩
  · obtain ⟨ls, spelled⟩ := exists_spells_of_read h
    exact parse_eq_ok_iff.mpr (read_of_spells spelled
      (spells_replaceComments (fun _ => isSpace_of_mem_lineFeeds) spelled) h)
  · obtain ⟨ls, spelled⟩ := exists_spells_of_read h
    exact parse_eq_ok_iff.mpr (by rwa [spelled.replaceComments_eq])
  · obtain ⟨ls, spelled⟩ := exists_spells_of_read h
    exact parse_eq_ok_iff.mpr (read_of_spells spelled
      (spells_withComments (fun _ => isSpace_of_mem_lineFeeds) inserted spelled) h)

/-- A limit: read with spaces for comments, then strictly, then with comments put between its tokens. -/
theorem parse_of_read_limit :
    let limit : RuleConfig := .ofList [("k", .number (.natural 80))]
    (read (replaceComments (fun _ => [' ']) "\x7b/* // */\"k\": 80/**/\x7d// end".toList) = .ok limit ∧
      parse "\x7b/* // */\"k\": 80/**/\x7d// end" = .ok limit) ∧
    read "\x7b\"k\":80\x7d".toList = .ok limit ∧ parse "\x7b\"k\":80/***/\x7d//\n" = .ok limit := by
  intro limit
  have replaced : replaceComments (fun _ => [' ']) "\x7b/* // */\"k\": 80/**/\x7d// end".toList =
      "\x7b \"k\": 80 \x7d ".toList := by
    simp [replaceComments, Json.splitBlock, Json.splitLiteral]
  have spaced : read (replaceComments (fun _ => [' ']) "\x7b/* // */\"k\": 80/**/\x7d// end".toList) =
      .ok limit := replaced ▸ rfl
  have strict : read "\x7b\"k\":80\x7d".toList = .ok limit := rfl
  have block : Json.ClosedComment ['/', '*', '*', '*', '/'] := .block (by decide : ¬ ['*', '/'] <:+: ['*'])
  have line : Json.ClosedComment ['/', '/', '\n'] := .line (by decide : '\n' ∉ [])
  have inserted : WithComments ['\x7b', '"', 'k', '"', ':', '8', '0', '\x7d']
      ['\x7b', '"', 'k', '"', ':', '8', '0', '/', '*', '*', '*', '/', '\x7d', '/', '/', '\n'] :=
    .token (x := ['\x7b']) rfl <| .token (x := ['"', 'k', '"']) rfl <| .token (x := [':']) rfl <|
      .token (x := ['8', '0']) rfl <| .comment block <| .token (x := ['\x7d']) rfl <| .comment line .nil
  exact ⟨⟨spaced, (parse_of_read _ limit).1 spaced⟩, strict,
    ((parse_of_read _ limit).2 strict).2 _ (by simpa using inserted)⟩

end TagLint.RuleConfig

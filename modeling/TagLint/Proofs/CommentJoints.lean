import TagLint.Proofs.CommentTolerance

/-!
# Comment joints — where a removed comment joins what stood apart

A comment without a line feed leaves nothing behind when it is removed.  Between two characters of numbers or words
it makes one number or word of two.

* `joinsWords t`: somewhere in the text `t` a comment does so.
* `Spelling.mark_or_word`: besides string literals a token is a single mark, or made of word characters.
* `spells_of_apart`: without such a joint a text with gaps for its comments spells what it spells without comments.
* `apart_of_gaps`: with gaps for its comments, no text that has such a joint spells anything that a reader accepts.
* **`RuleConfig.read_spaced_iff`**: so a strict reader takes the text with spaces for comments exactly if the text
  parses and has no such joint.
-/

namespace TagLint.Json

variable {f g : List Char → List Char} {t u x s : List Char} {c : Char} {l : Lexeme} {ls : List Lexeme}

/-! ## Joints -/

/-- Characters of numbers and words. -/
def isWordChar (c : Char) : Bool := isNumberChar c || c.isAlpha

def startsComment : List Char → Bool
  | '/' :: '/' :: _ => true
  | '/' :: '*' :: _ => true
  | _ => false

/-- Whether a text starts with a comment, and with a word character when its comments are removed. -/
def isJoint (t : List Char) : Bool := startsComment t && (stripComments t).head?.any isWordChar

/-- Whether a comment outside string literals joins a word character before it and one after it. -/
def joinsWords : List Char → Bool
  | [] => false
  | '/' :: '/' :: cs => joinsWords (cs.dropWhile (· ≠ '\n'))
  | '/' :: '*' :: cs => joinsWords (splitBlock cs).2
  | '"' :: cs => joinsWords (splitLiteral cs).2
  | c :: cs => (isWordChar c && isJoint cs) || joinsWords cs
termination_by cs => cs.length
decreasing_by
  · have := List.length_dropWhile_le (· ≠ '\n') cs
    simp only [List.length_cons]
    omega
  · have := length_splitBlock_le cs
    simp only [List.length_cons]
    omega
  · have := length_splitLiteral_le cs
    simp only [List.length_cons]
    omega
  · simp

/-- How a text starts, and where its joints are then. -/
theorem joinsWords_cases (t : List Char) :
    t = [] ∨
      (∃ k t', startsComment t ∧ (∀ f, replaceComments f t = f k ++ replaceComments f t') ∧ t'.length < t.length ∧
        joinsWords t = joinsWords t') ∨
      (∃ cs, t = '"' :: cs) ∨
      ∃ c t', c ≠ '"' ∧ t = c :: t' ∧ startsComment t = false ∧
        (∀ f, replaceComments f t = c :: replaceComments f t') ∧
        joinsWords t = ((isWordChar c && isJoint t') || joinsWords t') := by
  fun_cases joinsWords t with
  | case1 => exact .inl rfl
  | case2 cs =>
    have shorter := List.length_dropWhile_le (· ≠ '\n') cs
    refine .inr (.inl ⟨'/' :: '/' :: cs.takeWhile (· ≠ '\n'), cs.dropWhile (· ≠ '\n'), rfl, fun f => ?_, ?_, rfl⟩)
    · rw [replaceComments]
    · simp only [List.length_cons]
      omega
  | case3 cs =>
    have shorter := length_splitBlock_le cs
    refine .inr (.inl ⟨'/' :: '*' :: (splitBlock cs).1, (splitBlock cs).2, rfl, fun f => ?_, ?_, rfl⟩)
    · rw [replaceComments]
    · simp only [List.length_cons]
      omega
  | case4 cs => exact .inr (.inr (.inl ⟨cs, rfl⟩))
  | case5 c cs line block quote =>
    refine .inr (.inr (.inr ⟨c, cs, quote, rfl, ?_, fun f => ?_, rfl⟩))
    · unfold startsComment
      split <;> simp_all
    · rw [replaceComments]
      · exact line
      · exact block
      · exact quote

/-! ## Marks and words -/

theorem isWordChar_of_isNumberChar (h : isNumberChar c) : isWordChar c := by simp [isWordChar, h]

/-- A token that is no string literal is a single mark, or a number or word of word characters. -/
theorem Spelling.mark_or_word (h : Spelling (c :: x) l) (quote : c ≠ '"') :
    (x = [] ∧ isWordChar c = false) ∨ (l.isScalar ∧ ∀ d ∈ c :: x, isWordChar d) := by
  have reads := h.reads [] fun _ => endsNumber_nil
  obtain ⟨d, y, first, space⟩ := h.shape.exists_head
  rw [← (List.cons.inj first).1] at space
  have skip : skipSpace (c :: x) = c :: x := List.dropWhile_cons_of_neg (by simp [space])
  rw [List.append_nil, nextToken, skip] at reads
  -- a word is read to its end, so that its letters are the rest of the token
  have word {j : Json} {w : List Char} (letters : ∀ d ∈ c :: w, isWordChar d)
      (reads : Token.ofRead (c :: x) .scalar ((readWord w x).map fun r => (j, r)) = ⟨l, c :: x, []⟩) :
      l.isScalar ∧ ∀ d ∈ c :: x, isWordChar d := by
    obtain ⟨i, hi, rfl⟩ := exists_of_ofRead reads h.proper
    cases hw : readWord w x with
    | error f => simp [hw, Except.map] at hi
    | ok rest =>
      obtain ⟨-, rfl⟩ : j = i ∧ rest = [] := by simpa [hw, Except.map] using hi
      obtain rfl := readWord_eq_ok_iff.mp hw
      rw [List.append_nil]
      exact ⟨rfl, letters⟩
  split at reads
  case h_1 same => simp at same
  case h_8 same => exact absurd (List.cons.inj same).1 quote
  case h_9 same =>
    obtain ⟨rfl, rfl⟩ := List.cons.inj same
    exact .inr (word (List.all_eq_true.mp rfl) reads)
  case h_10 same =>
    obtain ⟨rfl, rfl⟩ := List.cons.inj same
    exact .inr (word (List.all_eq_true.mp rfl) reads)
  case h_11 same =>
    obtain ⟨rfl, rfl⟩ := List.cons.inj same
    exact .inr (word (List.all_eq_true.mp rfl) reads)
  case h_12 =>
    split_ifs at reads
    · obtain ⟨a, hn, rfl⟩ := exists_of_ofRead reads h.proper
      obtain ⟨y, same, number, -⟩ := takes_readNumber hn
      rw [List.append_nil] at same
      exact .inr ⟨rfl, fun d hd => isWordChar_of_isNumberChar (number d (same ▸ hd))⟩
    · obtain ⟨rfl, -, -⟩ := Token.mk.inj reads
      exact absurd h.proper (by decide)
  all_goals
    rename_i same
    obtain ⟨rfl, rfl⟩ := List.cons.inj same
    obtain ⟨-, -, rfl⟩ := Token.mk.inj reads
    exact .inl ⟨rfl, by decide⟩

/-- What may follow a value starts with no word character. -/
theorem Spelling.not_isWordChar (h : Spelling (c :: x) l) (ends : EndsValue (l :: ls)) : isWordChar c = false := by
  by_contra word
  rw [Bool.not_eq_false] at word
  have quote := (isPlain_iff.mp (isPlain_of_class word (by decide))).2.1
  obtain ⟨-, mark⟩ | ⟨scalar, -⟩ := h.mark_or_word quote
  · rw [word] at mark
    cases mark
  · rcases ends l rfl with rfl | rfl | rfl <;> cases scalar

/-! ## Without joints -/

/-- Word characters of the text without comments stand together in the text itself, unless a comment joins them. -/
theorem exists_of_words (words : ∀ d ∈ x, isWordChar d) (before : isJoint t = false) (after : joinsWords t = false)
    (h : replaceComments lineFeeds t = x ++ s) :
    ∃ t', t = x ++ t' ∧ replaceComments lineFeeds t' = s ∧ joinsWords t' = false := by
  induction x generalizing t with
  | nil => exact ⟨t, rfl, h, after⟩
  | cons d x ih =>
    have word : isWordChar d := words d (by simp)
    have start : startsComment t = false := by
      rw [isJoint, stripComments_eq, h] at before
      simpa [word] using before
    obtain rfl | ⟨k, t', comment, -⟩ | ⟨cs, rfl⟩ | ⟨c, t', -, rfl, -, cut, joints⟩ := joinsWords_cases t
    · simp [replaceComments] at h
    · rw [start] at comment
      cases comment
    · rw [replaceComments] at h
      obtain rfl := (List.cons.inj h).1
      exact absurd word (by decide)
    · rw [cut] at h
      obtain ⟨rfl, later⟩ := List.cons.inj h
      rw [joints, Bool.or_eq_false_iff] at after
      have joint : isJoint t' = false := by simpa [word] using after.1
      obtain ⟨t'', rfl, rest, apart⟩ := ih (fun e he => words e (by simp [he])) joint after.2 later
      exact ⟨t'', rfl, rest, apart⟩

/-- The text of a token of the text without comments stands in the text itself, unless a comment joins words. -/
theorem exists_of_spelling (spelled : Spelling x l) (start : startsComment t = false) (apart : joinsWords t = false)
    (h : replaceComments lineFeeds t = x ++ s) :
    ∃ t', t = x ++ t' ∧ replaceComments lineFeeds t' = s ∧ joinsWords t' = false := by
  obtain ⟨c, y, rfl, -⟩ := spelled.shape.exists_head
  obtain rfl | ⟨k, t', comment, -⟩ | ⟨cs, rfl⟩ | ⟨d, t', quote, rfl, -, cut, joints⟩ := joinsWords_cases t
  · simp [replaceComments] at h
  · rw [start] at comment
    cases comment
  · rw [replaceComments] at h
    obtain rfl := (List.cons.inj h).1
    cases spelled.shape with
    | plain _ plain => exact absurd (plain _ List.mem_cons_self) (by decide)
    | literal tail =>
      obtain ⟨same, rest⟩ := exists_of_literalTail tail (List.cons.inj h).2
      rw [joinsWords] at apart
      exact ⟨(splitLiteral cs).2, congrArg _ same, rest, apart⟩
  · rw [cut] at h
    obtain ⟨rfl, later⟩ := List.cons.inj h
    rw [joints, Bool.or_eq_false_iff] at apart
    obtain ⟨rfl, -⟩ | ⟨-, words⟩ := spelled.mark_or_word quote
    · exact ⟨t', rfl, later, apart.2⟩
    · have word : isWordChar d := words d (by simp)
      have joint : isJoint t' = false := by simpa [word] using apart.1
      obtain ⟨t'', rfl, rest, after⟩ := exists_of_words (fun e he => words e (by simp [he])) joint apart.2 later
      exact ⟨t'', rfl, rest, after⟩

/-- **Text without joints.**  Where no comment joins words, a text with white space for its comments spells what it
spells without them. -/
theorem spells_of_apart (white : ∀ k, ∀ c ∈ f k, isSpace c) (apart : joinsWords t = false)
    (h : Spells (replaceComments lineFeeds t) ls) : Spells (replaceComments f t) ls := by
  induction len : t.length using Nat.strong_induction_on generalizing t ls with
  | _ n ih =>
    subst len
    generalize same : replaceComments lineFeeds t = u at h
    obtain rfl | ⟨k, t', -, cut, shorter, joints⟩ | start := joinsWords_cases t
    · rw [replaceComments] at same ⊢
      rwa [same]
    · rw [← same, cut] at h
      rw [cut]
      have rest := h.of_append_space isSpace_of_mem_lineFeeds
      exact (ih _ shorter (joints ▸ apart) rest rfl).append_space (white k)
    · cases h with
      | nil =>
        obtain ⟨cs, rfl⟩ | ⟨d, t', -, rfl, -, cut, -⟩ := start
        · simp [replaceComments] at same
        · simp [cut] at same
      | @space c u ls hc h =>
        obtain ⟨cs, rfl⟩ | ⟨d, t', -, rfl, -, cut, joints⟩ := start
        · rw [replaceComments] at same
          rw [← (List.cons.inj same).1] at hc
          exact absurd hc (by decide)
        · rw [cut] at same ⊢
          obtain ⟨rfl, rfl⟩ := List.cons.inj same
          rw [joints, Bool.or_eq_false_iff] at apart
          exact .space hc (ih _ (by simp) apart.2 h rfl)
      | @token x u l ls spelled ends h =>
        -- the text of the token stands in `t` itself, and what follows it has no joint either
        have code : startsComment t = false := by
          obtain ⟨cs, rfl⟩ | ⟨d, t', -, -, code, -⟩ := start
          · rfl
          · exact code
        obtain ⟨t', rfl, rfl, after⟩ := exists_of_spelling spelled code apart same
        rw [replaceComments_word spelled.shape]
        have shorter := spelled.shape.length_lt_append t'
        exact .token spelled ends (ih _ shorter after h rfl)

/-! ## With gaps for comments -/

theorem joinsWords_cons (plain : isPlain c) (t : List Char) :
    joinsWords (c :: t) = ((isWordChar c && isJoint t) || joinsWords t) := by
  obtain ⟨-, quote, slash⟩ := isPlain_iff.mp plain
  rw [joinsWords]
  · exact fun _ same => absurd same slash
  · exact fun _ same => absurd same slash
  · exact quote

theorem isJoint_cons (plain : isPlain c) (t : List Char) : isJoint (c :: t) = false := by
  have slash := (isPlain_iff.mp plain).2.2
  have start : startsComment (c :: t) = false := by
    unfold startsComment
    split <;> simp_all
  rw [isJoint, start, Bool.false_and]

theorem joinsWords_words (words : ∀ d ∈ x, isWordChar d) (joint : isJoint t = false) :
    joinsWords (x ++ t) = joinsWords t := by
  induction x with
  | nil => rfl
  | cons d x ih =>
    have later : ∀ e ∈ x, isWordChar e := fun e he => words e (by simp [he])
    have inside : isJoint (x ++ t) = false := by
      cases x with
      | nil => exact joint
      | cons e x => exact isJoint_cons (isPlain_of_class (later e (by simp)) (by decide)) _
    rw [List.cons_append, joinsWords_cons (isPlain_of_class (words d (by simp)) (by decide)), inside, ih later]
    simp

/-- A token is no place for a joint, and a joint behind it stands behind a number or word. -/
theorem joinsWords_token (spelled : Spelling x l) (joint : l.isScalar → isJoint t = false) :
    joinsWords (x ++ t) = joinsWords t := by
  cases hx : spelled.shape with
  | literal tail => simp [joinsWords, splitLiteral_tail tail]
  | plain ne plain =>
    obtain ⟨c, y, rfl⟩ := List.exists_cons_of_ne_nil ne
    have first := plain c (by simp)
    obtain ⟨rfl, mark⟩ | ⟨scalar, words⟩ := spelled.mark_or_word (isPlain_iff.mp first).2.1
    · rw [List.cons_append, joinsWords_cons first, mark]
      simp
    · exact joinsWords_words words (joint scalar)

/-- What the text without comments starts with comes first behind white space when there is some for comments. -/
theorem exists_gap_append {d : Char} (white : ∀ k, ∀ c ∈ g k, isSpace c) (space : isSpace d = false)
    (h : replaceComments lineFeeds t = d :: s) :
    ∃ w u, (∀ c ∈ w, isSpace c) ∧ replaceComments g t = w ++ d :: u := by
  induction len : t.length using Nat.strong_induction_on generalizing t with
  | _ n ih =>
    subst len
    obtain rfl | ⟨k, t', -, cut, shorter, -⟩ | ⟨cs, rfl⟩ | ⟨c, t', -, rfl, -, cut, -⟩ := joinsWords_cases t
    · simp [replaceComments] at h
    · rw [cut] at h
      have none : lineFeeds k = [] := by
        cases feeds : lineFeeds k with
        | nil => rfl
        | cons e w =>
          rw [feeds] at h
          obtain rfl := (List.cons.inj h).1
          have white := isSpace_of_mem_lineFeeds e (feeds ▸ List.mem_cons_self)
          simp [space] at white
      rw [none, List.nil_append] at h
      obtain ⟨w, u, hw, same⟩ := ih _ shorter h rfl
      exact ⟨g k ++ w, u, List.forall_mem_append.mpr ⟨white k, hw⟩, by rw [cut, same, List.append_assoc]⟩
    · rw [replaceComments] at h
      obtain rfl := (List.cons.inj h).1
      exact ⟨[], (splitLiteral cs).1 ++ replaceComments g (splitLiteral cs).2, by simp, by simp [replaceComments]⟩
    · rw [cut] at h
      obtain rfl := (List.cons.inj h).1
      exact ⟨[], replaceComments g t', by simp, by rw [cut, List.nil_append]⟩

/-- After a number or word no joint follows. -/
theorem isJoint_of_endsValue (white : ∀ k, ∀ c ∈ g k, isSpace c) (h : Spells (replaceComments g t) ls)
    (ends : EndsValue ls) : isJoint t = false := by
  by_contra joint
  rw [Bool.not_eq_false, isJoint, Bool.and_eq_true, stripComments_eq] at joint
  obtain ⟨d, first, word⟩ := (Option.any_eq_true _ _).mp joint.2
  obtain ⟨s, bare⟩ := List.head?_eq_some_iff.mp first
  have space := (isPlain_iff.mp (isPlain_of_class word (by decide))).1
  obtain ⟨w, u, hw, same⟩ := exists_gap_append white space bare
  rw [same] at h
  have rest := h.of_append_space hw
  generalize again : d :: u = v at rest
  cases rest with
  | nil => cases again
  | space hc _ =>
    rw [← (List.cons.inj again).1, space] at hc
    cases hc
  | token spelled _ _ =>
    obtain ⟨c, y, rfl, -⟩ := spelled.shape.exists_head
    obtain rfl := (List.cons.inj again).1
    rw [spelled.not_isWordChar ends] at word
    cases word

/-- **Joints in the way.**  Where a comment joins words, a text with gaps for its comments spells nothing in which
every number and word is followed as it should be. -/
theorem apart_of_gaps (gap : ∀ k, IsGap (g k)) (h : Spells (replaceComments g t) ls) : joinsWords t = false := by
  induction len : t.length using Nat.strong_induction_on generalizing t ls with
  | _ n ih =>
    subst len
    generalize same : replaceComments g t = u at h
    obtain rfl | ⟨k, t', -, cut, shorter, joints⟩ | start := joinsWords_cases t
    · rw [joinsWords]
    · rw [← same, cut] at h
      rw [joints]
      exact ih _ shorter (h.of_append_space (gap k).2) rfl
    · cases h with
      | nil =>
        obtain ⟨cs, rfl⟩ | ⟨d, t', -, rfl, -, cut, -⟩ := start
        · simp [replaceComments] at same
        · simp [cut] at same
      | @space c u ls hc h =>
        obtain ⟨cs, rfl⟩ | ⟨d, t', -, rfl, -, cut, joints⟩ := start
        · rw [replaceComments] at same
          rw [← (List.cons.inj same).1] at hc
          exact absurd hc (by decide)
        · rw [cut] at same
          obtain ⟨rfl, rfl⟩ := List.cons.inj same
          have word : isWordChar d = false := by
            by_contra word
            rw [Bool.not_eq_false] at word
            rw [(isPlain_iff.mp (isPlain_of_class word (by decide))).1] at hc
            cases hc
          rw [joints, word, Bool.false_and, Bool.false_or]
          exact ih _ (by simp) h rfl
      | @token x u l ls spelled ends h =>
        obtain ⟨t', rfl, rfl⟩ := exists_of_word gap spelled.shape same
        rw [joinsWords_token spelled fun scalar => isJoint_of_endsValue (fun k => (gap k).2) h (ends scalar)]
        have shorter := spelled.shape.length_lt_append t'
        exact ih _ shorter h rfl

end TagLint.Json

/-! ## Configurations -/

namespace TagLint.RuleConfig

open Json

variable {C : RuleConfig}

/-- A space for a comment, and the line feeds that it holds. -/
def spaceFor (k : List Char) : List Char := ' ' :: lineFeeds k

theorem isGap_spaceFor (k : List Char) : IsGap (spaceFor k) :=
  ⟨by simp [spaceFor], List.forall_mem_cons.mpr ⟨by decide, isSpace_of_mem_lineFeeds⟩⟩

/-- **Spaces for comments.**  A strict reader takes the text with a space for each comment, line feeds kept, for a
configuration exactly if the text as it is parses to that configuration and no comment in it joins words. -/
theorem read_spaced_iff (t : String) (C : RuleConfig) :
    read (replaceComments spaceFor t.toList) = .ok C ↔ parse t = .ok C ∧ joinsWords t.toList = false := by
  constructor
  · intro h
    obtain ⟨ls, spelled⟩ := exists_spells_of_read h
    have bare := spells_of_gaps (f := lineFeeds) isGap_spaceFor (fun _ => isSpace_of_mem_lineFeeds) spelled
    exact ⟨parse_eq_ok_iff.mpr (read_of_spells spelled bare h), apart_of_gaps isGap_spaceFor spelled⟩
  · rintro ⟨h, apart⟩
    rw [parse_eq_ok_iff] at h
    obtain ⟨ls, spelled⟩ := exists_spells_of_read h
    have spaced := spells_of_apart (fun k => (isGap_spaceFor k).2) apart spelled
    exact read_of_spells spelled spaced h

/-- A comment between two digits makes one number of them: a limit of 12, where with a space for the comment the text
is refused. -/
theorem parse_joined_limit :
    let text := "\x7b\"max-length\": 1/* */2\x7d"
    parse text = .ok (.ofList [("max-length", .number (.natural 12))]) ∧
    ∀ C, read (replaceComments spaceFor text.toList) ≠ .ok C := by
  intro text
  have bare : stripComments text.toList = "\x7b\"max-length\": 12\x7d".toList := by decide
  have spaced : replaceComments spaceFor text.toList = "\x7b\"max-length\": 1 2\x7d".toList := by
    simp [text, replaceComments, splitLiteral, splitBlock, spaceFor, lineFeeds]
  have refused : (read "\x7b\"max-length\": 1 2\x7d".toList).toOption = none := by decide +kernel
  refine ⟨by rw [parse, bare]; rfl, fun C h => ?_⟩
  rw [← spaced, h] at refused
  cases refused

end TagLint.RuleConfig

import TagLint.Json.Token
import TagLint.Proofs.NumberText

/-!
# Token text — which text each token takes

* `LiteralTail`: a string literal after its opening quote, up to its closing quote.
* `Spelling x l`: the text `x` is read as the lexeme `l` whatever text follows, provided a number ends there.
* **`exists_spelling`**: every proper token of a text has such a text of its own.
-/

namespace TagLint.Json

/-! ## String literals -/

/-- A string literal after its opening quote, its closing quote included. -/
inductive LiteralTail : List Char → Prop
  | close : LiteralTail ['"']
  | escape (c : Char) {ys : List Char} : LiteralTail ys → LiteralTail ('\\' :: c :: ys)
  | char {c : Char} {ys : List Char} : c ≠ '"' → c ≠ '\\' → LiteralTail ys → LiteralTail (c :: ys)

theorem ne_quote_of_hexValue {c : Char} {n : Nat} (h : hexValue c = some n) : c ≠ '"' ∧ c ≠ '\\' := by
  constructor <;> rintro rfl <;> simp [hexValue] at h

theorem LiteralTail.hexFour {a b c d : Char} {n : Nat} {ys : List Char} (h : hexFour a b c d = some n)
    (tail : LiteralTail ys) : LiteralTail (a :: b :: c :: d :: ys) := by
  simp only [Json.hexFour, Option.bind_eq_bind, Option.bind_eq_some_iff] at h
  obtain ⟨_, ha, _, hb, _, hc, _, hd, -⟩ := h
  have ha := ne_quote_of_hexValue ha
  have hb := ne_quote_of_hexValue hb
  have hc := ne_quote_of_hexValue hc
  have hd := ne_quote_of_hexValue hd
  exact .char ha.1 ha.2 (.char hb.1 hb.2 (.char hc.1 hc.2 (.char hd.1 hd.2 tail)))

/-- The rest of a literal, read behind `y`, is a text of its own. -/
theorem exists_literalTail_append {done done' y cs s r : List Char}
    (unit : ∀ r', readString done (y ++ r') = readString done' r')
    (grows : ∀ {ys}, LiteralTail ys → LiteralTail (y ++ ys))
    (h : ∃ ys, cs = ys ++ r ∧ LiteralTail ys ∧ ∀ r', readString done' (ys ++ r') = .ok (s, r')) :
    ∃ ys, y ++ cs = ys ++ r ∧ LiteralTail ys ∧ ∀ r', readString done (ys ++ r') = .ok (s, r') := by
  obtain ⟨ys, rfl, tail, again⟩ := h
  refine ⟨y ++ ys, (List.append_assoc ..).symm, grows tail, fun r' => ?_⟩
  rw [List.append_assoc, unit, again]

theorem exists_literalTail {done cs s r : List Char} (h : readString done cs = .ok (s, r)) :
    ∃ ys, cs = ys ++ r ∧ LiteralTail ys ∧ ∀ r', readString done (ys ++ r') = .ok (s, r') := by
  fun_induction readString done cs
  case case2 done rest =>
    simp only [Except.ok.injEq, Prod.mk.injEq] at h
    obtain ⟨rfl, rfl⟩ := h
    exact ⟨['"'], rfl, .close, fun r' => by simp [readString]⟩
  case case9 done a b c d high hh low' surrogate a' b' c' d' rest low hl pair ih =>
    refine exists_literalTail_append (y := ['\\', 'u', a, b, c, d, '\\', 'u', a', b', c', d'])
      (fun r' => ?_) (fun tail => .escape _ (.hexFour hh (.escape _ (.hexFour hl tail)))) (ih h)
    simp [readString, hh, low', surrogate, hl, pair]
  case case14 done a b c d rest n hn low' high ih =>
    refine exists_literalTail_append (y := ['\\', 'u', a, b, c, d])
      (fun r' => ?_) (fun tail => .escape _ (.hexFour hn tail)) (ih h)
    simp [readString, hn, low', high]
  case case16 done c rest _ hu e he ih =>
    refine exists_literalTail_append (y := ['\\', c]) (fun r' => ?_) (fun tail => .escape _ tail) (ih h)
    have hu : c ≠ 'u' := hu
    simp only [List.cons_append, List.nil_append]
    rw [readString, he]
    · exact fun _ _ _ _ _ same => absurd same hu
    · exact fun same => absurd same hu
  case case19 done c rest quote last _ _ escape control ih =>
    have back : c ≠ '\\' := fun same => by
      cases rest with
      | nil => exact last same rfl
      | cons d rest => exact escape d rest same rfl
    refine exists_literalTail_append (y := [c]) (fun r' => ?_) (fun tail => .char quote back tail) (ih h)
    simp only [List.cons_append, List.nil_append]
    rw [readString, if_neg control]
    all_goals simp_all
  all_goals simp at h

/-! ## Words -/

theorem readWord_eq_ok_iff {word cs r : List Char} : readWord word cs = .ok r ↔ cs = word ++ r := by
  induction word generalizing cs with
  | nil => simp [readWord]
  | cons w ws ih =>
    cases cs with
    | nil => simp [readWord]
    | cons c cs =>
      by_cases same : w = c
      · simp [readWord, same, ih]
      · simp [readWord, same, Ne.symm same]

/-! ## Tokens -/

/-- Characters that are neither white space nor start a literal or a comment. -/
def isPlain (c : Char) : Bool := !isSpace c && c ≠ '"' && c ≠ '/'

theorem isPlain_iff {c : Char} : isPlain c ↔ isSpace c = false ∧ c ≠ '"' ∧ c ≠ '/' := by
  simp [isPlain, and_assoc]

/-- The characters of a class are plain when white space, quotes and slashes are not among them. -/
theorem isPlain_of_class {p : Char → Bool} {c : Char} (h : p c)
    (hp : [' ', '\n', '\t', '\r', '"', '/'].all fun d => !p d) : isPlain c := by
  by_contra hplain
  have hmem : c ∈ [' ', '\n', '\t', '\r', '"', '/'] := by
    simp only [isPlain, isSpace, Bool.and_eq_true, Bool.not_eq_true', decide_eq_true_eq, ne_eq, not_and_or,
      not_not, Bool.not_eq_false, Bool.or_eq_true] at hplain
    simpa only [List.mem_cons, List.not_mem_nil, or_false, or_assoc] using hplain
  have hnone : (!p c) = true := List.all_eq_true.mp hp c hmem
  rw [h] at hnone
  cases hnone

/-- The text of a token: plain characters, or a string literal. -/
inductive WordShape : List Char → Prop
  | plain {x : List Char} : x ≠ [] → (∀ c ∈ x, isPlain c) → WordShape x
  | literal {ys : List Char} : LiteralTail ys → WordShape ('"' :: ys)

def Lexeme.isNumber : Lexeme → Bool
  | .scalar (.number _) => true
  | _ => false

/-- A number, or one of the words `true`, `false` and `null`. -/
def Lexeme.isScalar : Lexeme → Bool
  | .scalar _ => true
  | _ => false

theorem Lexeme.isScalar_of_isNumber {l : Lexeme} (h : l.isNumber) : l.isScalar := by
  unfold isNumber at h
  split at h
  · rfl
  · cases h

/-- A token that the grammar knows. -/
def Lexeme.isProper : Lexeme → Bool
  | .malformed _ | .stray | .endOfText => false
  | _ => true

/-- The text `x` is read as `l` before every text that ends it. -/
structure Spelling (x : List Char) (l : Lexeme) : Prop where
  proper : l.isProper
  shape : WordShape x
  reads : ∀ r, (l.isNumber → EndsNumber r) → nextToken (x ++ r) = ⟨l, x ++ r, r⟩

/-- A text of plain characters that is read without a look at what follows. -/
theorem Spelling.ofPlain {x : List Char} {l : Lexeme} (proper : l.isProper) (ne : x ≠ [])
    (plain : ∀ c ∈ x, isPlain c) (reads : ∀ r, nextToken (x ++ r) = ⟨l, x ++ r, r⟩) : Spelling x l :=
  ⟨proper, .plain ne plain, fun r _ => reads r⟩

/-- A proper token comes from a text that was read. -/
theorem exists_of_ofRead {α : Type} {cs s r : List Char} {k : α → Lexeme} {e : Except Fault (α × List Char)}
    {l : Lexeme} (h : Token.ofRead cs k e = ⟨l, s, r⟩) (proper : l.isProper) : ∃ a, e = .ok (a, r) ∧ k a = l := by
  cases e with
  | error f =>
    obtain ⟨rfl, -, -⟩ := Token.mk.inj h
    exact absurd proper (by simp [Lexeme.isProper])
  | ok p =>
    obtain ⟨rfl, -, rfl⟩ := Token.mk.inj h
    exact ⟨p.1, rfl, rfl⟩

theorem exists_spelling_word {c : Char} {word cs s r : List Char} {l : Lexeme} {j : Json}
    (plain : ∀ d ∈ c :: word, isPlain d)
    (first : ∀ cs, nextToken (c :: cs) = .ofRead (c :: cs) .scalar ((readWord word cs).map fun r => (j, r)))
    (h : Token.ofRead (c :: cs) .scalar ((readWord word cs).map fun r => (j, r)) = ⟨l, s, r⟩)
    (proper : l.isProper) : ∃ x, c :: cs = x ++ r ∧ Spelling x l := by
  obtain ⟨i, hi, rfl⟩ := exists_of_ofRead h proper
  cases hw : readWord word cs with
  | error f => simp [hw, Except.map] at hi
  | ok rest =>
    obtain ⟨rfl, rfl⟩ : j = i ∧ rest = r := by simpa [hw, Except.map] using hi
    obtain rfl := readWord_eq_ok_iff.mp hw
    refine ⟨c :: word, rfl, .ofPlain proper (by simp) plain fun r' => ?_⟩
    rw [List.cons_append, first, readWord_eq_ok_iff.mpr rfl]
    rfl

theorem exists_spelling_single {c : Char} {cs s r : List Char} {l k : Lexeme} (plain : isPlain c)
    (first : ∀ cs, nextToken (c :: cs) = single k (c :: cs)) (h : single k (c :: cs) = ⟨l, s, r⟩)
    (proper : l.isProper) : ∃ x, c :: cs = x ++ r ∧ Spelling x l := by
  simp only [single, List.drop_one, List.tail_cons, Token.mk.injEq] at h
  obtain ⟨rfl, rfl, rfl⟩ := h
  exact ⟨[c], rfl, .ofPlain proper (by simp) (by simpa using plain) first⟩

theorem exists_spelling_string {cs s r : List Char} {l : Lexeme}
    (h : Token.ofRead ('"' :: cs) (fun s => .string (String.ofList s)) (readString [] cs) = ⟨l, s, r⟩)
    (proper : l.isProper) : ∃ x, '"' :: cs = x ++ r ∧ Spelling x l := by
  obtain ⟨a, hs, rfl⟩ := exists_of_ofRead h proper
  obtain ⟨ys, rfl, tail, again⟩ := exists_literalTail hs
  refine ⟨'"' :: ys, rfl, proper, .literal tail, fun r' _ => ?_⟩
  show Token.ofRead ('"' :: (ys ++ r')) _ (readString [] (ys ++ r')) = _
  rw [again]
  rfl

theorem nextToken_number {c : Char} (h : c = '-' ∨ isDigit c) (cs : List Char) :
    nextToken (c :: cs) = .ofRead (c :: cs) (fun n => .scalar (.number n)) (readNumber (c :: cs)) := by
  have number : isNumberChar c := by rcases h with rfl | h <;> simp_all [isNumberChar]
  have space : isSpace c = false := (isPlain_iff.mp (isPlain_of_class number (by decide))).1
  unfold nextToken
  rw [skipSpace, List.dropWhile_cons_of_neg (by simp [space])]
  dsimp only
  split
  case h_1 same => exact absurd same (by simp)
  case h_12 same =>
    obtain ⟨rfl, -⟩ := List.cons.inj same
    exact if_pos (by simpa using h)
  -- the other characters start no number
  all_goals
    rename_i same
    obtain ⟨rfl, -⟩ := List.cons.inj same
    exact absurd h (by decide)

/-- No comma and no closing bracket starts with a number character. -/
theorem lexeme_of_isNumberChar {c : Char} (h : isNumberChar c) (cs : List Char) :
    ((nextToken (c :: cs)).lexeme ≠ .comma ∧ (nextToken (c :: cs)).lexeme ≠ .closeList) ∧
      (nextToken (c :: cs)).lexeme ≠ .closeObject := by
  by_cases first : c = '-' ∨ isDigit c
  · rw [nextToken_number first]
    cases readNumber (c :: cs) <;> simp [Token.ofRead]
  · have stray : nextToken (c :: cs) = single .stray (c :: cs) := by
      simp only [isNumberChar, Bool.or_eq_true, decide_eq_true_eq] at h
      rcases h with ((((h | h) | rfl) | rfl) | rfl) | rfl
      · exact absurd (.inr h) first
      · exact absurd (.inl h) first
      all_goals rfl
    simp [stray, single]

theorem exists_spelling_number {c : Char} {cs s r : List Char} {l : Lexeme} (first : c = '-' ∨ isDigit c)
    (h : Token.ofRead (c :: cs) (fun n => .scalar (.number n)) (readNumber (c :: cs)) = ⟨l, s, r⟩)
    (proper : l.isProper) : ∃ x, c :: cs = x ++ r ∧ Spelling x l := by
  obtain ⟨a, hn, rfl⟩ := exists_of_ofRead h proper
  obtain ⟨x, same, number, again⟩ := takes_readNumber hn
  have ne : x ≠ [] := by
    rintro rfl
    simpa [readNumber, readUnsigned] using again [] endsNumber_nil
  refine ⟨x, same, proper, .plain ne fun d hd => isPlain_of_class (number d hd) (by decide), fun r' hr' => ?_⟩
  obtain ⟨d, x, rfl⟩ := List.exists_cons_of_ne_nil ne
  obtain rfl : c = d := (List.cons.inj same).1
  rw [List.cons_append, nextToken_number first, ← List.cons_append, again r' (hr' rfl)]
  rfl

/-- Every proper token of a text has a text of its own. -/
theorem exists_spelling {t s r : List Char} {l : Lexeme} (h : nextToken t = ⟨l, s, r⟩) (proper : l.isProper) :
    ∃ x, skipSpace t = x ++ r ∧ Spelling x l := by
  unfold nextToken at h
  generalize skipSpace t = cs at h
  dsimp only at h
  split at h
  case h_1 =>
    obtain ⟨rfl, -, -⟩ := Token.mk.inj h
    exact absurd proper (by decide)
  case h_8 => exact exists_spelling_string h proper
  case h_9 => exact exists_spelling_word (List.all_eq_true.mp rfl) (fun _ => rfl) h proper
  case h_10 => exact exists_spelling_word (List.all_eq_true.mp rfl) (fun _ => rfl) h proper
  case h_11 => exact exists_spelling_word (List.all_eq_true.mp rfl) (fun _ => rfl) h proper
  case h_12 c _ _ _ _ _ _ _ _ _ _ _ =>
    split_ifs at h with first
    · exact exists_spelling_number (by simpa using first) h proper
    · obtain ⟨rfl, -, -⟩ := Token.mk.inj h
      exact absurd proper (by decide)
  all_goals exact exists_spelling_single (by decide) (fun _ => rfl) h proper

theorem WordShape.exists_head {x : List Char} (h : WordShape x) : ∃ c y, x = c :: y ∧ isSpace c = false := by
  cases h with
  | plain ne plain =>
    obtain ⟨c, y, rfl⟩ := List.exists_cons_of_ne_nil ne
    exact ⟨c, y, rfl, (isPlain_iff.mp (plain c (by simp))).1⟩
  | literal tail => exact ⟨'"', _, rfl, by decide⟩

theorem WordShape.length_lt_append {x : List Char} (h : WordShape x) (t : List Char) : t.length < (x ++ t).length := by
  obtain ⟨c, y, rfl, -⟩ := h.exists_head
  rw [List.cons_append, List.length_cons, List.length_append]
  omega

/-- A token starts behind white space. -/
theorem start_nextToken (t : List Char) : (nextToken t).start = skipSpace t := by
  have ofRead {α : Type} {cs : List Char} {k : α → Lexeme} (e : Except Fault (α × List Char)) :
      (Token.ofRead cs k e).start = cs := by
    cases e <;> rfl
  unfold nextToken
  generalize skipSpace t = cs
  dsimp only
  split
  case h_1 => rfl
  case h_8 | h_9 | h_10 | h_11 => exact ofRead _
  case h_12 =>
    split_ifs
    · exact ofRead _
    · rfl
  all_goals rfl

/-- Only white space is left where the text ends. -/
theorem skipSpace_eq_nil {t : List Char} (h : (nextToken t).lexeme = .endOfText) : skipSpace t = [] := by
  unfold nextToken at h
  generalize skipSpace t = cs at h
  dsimp only at h
  have ofRead {α : Type} {cs : List Char} {k : α → Lexeme} {e : Except Fault (α × List Char)}
      (hk : ∀ a, k a ≠ .endOfText) : (Token.ofRead cs k e).lexeme ≠ .endOfText := by
    cases e with
    | error f => simp [Token.ofRead]
    | ok p => exact hk p.1
  split at h
  case h_1 => rfl
  case h_8 | h_9 | h_10 | h_11 => exact absurd h (ofRead (by simp))
  case h_12 =>
    split_ifs at h
    · exact absurd h (ofRead (by simp))
    · simp [single] at h
  all_goals simp [single] at h

end TagLint.Json

import Mathlib.Data.List.Infix
import Mathlib.Data.List.TakeWhile
import TagLint.Path
import TagLint.Proofs.SplitText

/-!
# The components of joined paths and of directories above

* `components_join`: joining a relative path appends its pieces.
* `map_components_parent?`: the parent of a path is the path without its last component, and a path without
  components or with the root alone has none.
* `map_components_upward`: from an absolute path the walk up goes through the non-empty beginnings of its
  components, the longest first.
-/

namespace TagLint

namespace Path

open Text

/-! ## Heads -/

/-- What follows a separator does not change the head. -/
theorem head_append_sep {as : List Char} (h : as ≠ []) (bs : List Char) : head (as ++ '/' :: bs) = head as := by
  match as with
  | [] => exact absurd rfl h
  | [c] =>
    by_cases h1 : c = '/'
    · subst h1; rfl
    · by_cases h2 : c = '.'
      · subst h2; rfl
      · simp [head, h1, h2]
  | c :: d :: cs =>
    by_cases h1 : c = '/'
    · subst h1; rfl
    · by_cases h2 : c = '.'
      · subst h2
        by_cases h3 : d = '/'
        · subst h3; rfl
        · simp [head, h3]
      · simp [head, h1, h2]

theorem head_cases (cs : List Char) : head cs = ['/'] ∨ head cs = ['.'] ∨ head cs = [] := by
  unfold head
  split <;> simp

theorem head_head (cs : List Char) : head (head cs) = head cs := by
  rcases head_cases cs with h | h | h <;> rw [h] <;> rfl

theorem head_append_drop (cs : List Char) : head cs ++ cs.drop (head cs).length = cs := by
  unfold head
  split <;> rfl

theorem isAbsolute_iff_head {p : Path} : p.isAbsolute ↔ head p.text.toList = ['/'] := by
  unfold isAbsolute
  cases p.text.toList with
  | nil => simp [head]
  | cons c cs =>
    by_cases hc : c = '/'
    · subst hc; simp [head]
    · have : head (c :: cs) ≠ ['/'] := by unfold head; split <;> simp_all
      simp [hc, this]

/-! ## Components as a head and pieces -/

/-- The pieces that are components. -/
def pieces (cs : List Char) : List (List Char) := (splitAt '/' cs).filter fun piece => !isJunk piece

theorem pieces_append_sep (as bs : List Char) : pieces (as ++ '/' :: bs) = pieces as ++ pieces bs := by
  rw [pieces, splitAt_append_sep, List.filter_append]
  rfl

/-- The head of a path is no piece. -/
theorem filter_body (p : Path) : (p.body.filter fun piece => !isJunk piece) = pieces p.text.toList := by
  unfold body head
  split
  case h_1 cs h => simp [h, pieces, splitAt, isJunk]
  case h_2 h => simp [h, pieces, splitAt, isJunk]
  case h_3 cs h => simp [h, pieces, splitAt, isJunk]
  case h_4 => simp [pieces]

theorem components_eq (p : Path) :
    p.components = p.headComponents ++ (pieces p.text.toList).map Component.ofPiece := by
  rw [components, filter_body]

theorem headComponents_eq_of_head {p q : Path} (h : head p.text.toList = head q.text.toList) :
    p.headComponents = q.headComponents := by
  rw [headComponents, headComponents, h]

theorem ofPiece_ne_root (piece : List Char) : Component.ofPiece piece ≠ .root := by
  unfold Component.ofPiece
  split <;> simp

theorem isAbsolute_iff {p : Path} : p.isAbsolute ↔ p.components.head? = some .root := by
  rw [isAbsolute_iff_head, components_eq, headComponents]
  unfold head
  split
  case h_1 => simp
  case h_2 => simp
  case h_3 => simp
  case h_4 =>
    simp only [List.nil_append, List.head?_map, Option.map_eq_some_iff]
    constructor
    · intro h; cases h
    · rintro ⟨piece, -, h⟩; exact absurd h (ofPiece_ne_root piece)

theorem components_eq_nil_iff {p : Path} : p.components = [] ↔ p.text = "" := by
  rw [← String.toList_eq_nil_iff, components_eq, headComponents]
  match hcs : p.text.toList with
  | [] => simp [head, pieces, splitAt, isJunk]
  | c :: cs =>
    rcases head_cases (c :: cs) with h | h | h <;> rw [h]
    · simp
    · simp
    · -- without a head the first piece begins with `c` and is not `.`
      have hc : c ≠ '/' := by rintro rfl; simp [head] at h
      rw [pieces, splitAt, if_neg hc]
      cases hs : splitAt '/' cs with
      | nil => exact absurd hs (splitAt_ne_nil '/' cs)
      | cons q qs =>
        have hq : c :: q ≠ ['.'] := by
          intro hq
          obtain ⟨rfl, rfl⟩ := List.cons.inj hq
          have hj := joinWith_splitAt '/' cs
          rw [hs] at hj
          cases qs with
          | nil => rw [← hj] at h; simp [head, joinWith] at h
          | cons r rs => rw [← hj] at h; simp [head, joinWith] at h
        simp [isJunk, hq]

/-! ## Joined paths -/

theorem components_append_sep (as bs : List Char) :
    components ⟨String.ofList (as ++ '/' :: bs)⟩ =
      components ⟨String.ofList (as ++ ['/'])⟩ ++ (pieces bs).map Component.ofPiece := by
  have hhead : head (as ++ '/' :: bs) = head (as ++ ['/']) := by
    cases as with
    | nil => rfl
    | cons a as => rw [head_append_sep (by simp), head_append_sep (by simp)]
  rw [components_eq, components_eq,
    headComponents_eq_of_head (q := ⟨String.ofList (as ++ ['/'])⟩) (by simpa using hhead), List.append_assoc]
  congr 1
  simp only [String.toList_ofList]
  rw [pieces_append_sep, pieces_append_sep]
  simp [pieces, splitAt, isJunk]

theorem components_append_last_sep {as : List Char} (h : as ≠ []) :
    components ⟨String.ofList (as ++ ['/'])⟩ = components ⟨String.ofList as⟩ := by
  rw [components_eq, components_eq,
    headComponents_eq_of_head (q := ⟨String.ofList as⟩) (by simpa using head_append_sep h [])]
  simp only [String.toList_ofList]
  rw [pieces_append_sep]
  simp [pieces, splitAt, isJunk]

/-- Joining a relative path appends its pieces. -/
theorem components_join {p q : Path} (hp : p.text ≠ "") (hq : ¬ q.isAbsolute) :
    (p.join q).components = p.components ++ (pieces q.text.toList).map Component.ofPiece := by
  have hne : p.text.toList ≠ [] := mt String.toList_eq_nil_iff.mp hp
  have hemp : p.text.isEmpty = false := by simpa using hp
  rw [join, if_neg hq]
  by_cases hsep : p.text.toList.getLast? = some '/'
  · obtain ⟨as, has⟩ := List.getLast?_eq_some_iff.mp hsep
    have ht : p.text ++ q.text = String.ofList (as ++ '/' :: q.text.toList) := by
      apply String.toList_injective
      simp [has]
    have hp' : p = ⟨String.ofList (as ++ ['/'])⟩ := by
      rw [← has, String.ofList_toList]
    rw [if_pos (.inr hsep), ht, components_append_sep, ← hp']
  · have ht : p.text ++ "/" ++ q.text = String.ofList (p.text.toList ++ '/' :: q.text.toList) := by
      apply String.toList_injective
      simp
    rw [if_neg (by simp [hemp, hsep]), ht, components_append_sep, components_append_last_sep hne, String.ofList_toList]

theorem join_of_isAbsolute {p q : Path} (hq : q.isAbsolute) : p.join q = q := if_pos hq

/-- What is seen from an absolute path is absolute. -/
theorem isAbsolute_join {p : Path} (hp : p.isAbsolute) (q : Path) : (p.join q).isAbsolute := by
  by_cases hq : q.isAbsolute
  · rwa [join_of_isAbsolute hq]
  · rw [isAbsolute_iff] at hp ⊢
    have hne : p.text ≠ "" := fun h => by
      rw [components_eq_nil_iff.mpr h] at hp
      cases hp
    rw [components_join hne hq, List.head?_append, hp]
    rfl

/-! ## The directory above -/

/-- A path cut after some of its pieces. -/
theorem components_cut {p : Path} {bs rest : List (List Char)} (hbody : p.body = bs ++ rest) (hrest : rest ≠ [])
    (hbs : bs ≠ [[]]) :
    components ⟨String.ofList (head p.text.toList ++ joinWith '/' bs)⟩ =
      p.headComponents ++ (bs.filter fun piece => !isJunk piece).map Component.ofPiece := by
  set cs := p.text.toList with hcs
  have hsep : ∀ b ∈ bs, '/' ∉ b := fun b hb => by
    have hmem : b ∈ p.body := by rw [hbody]; exact List.mem_append_left rest hb
    exact not_mem_of_mem_splitAt hmem
  by_cases hnil : bs = []
  · subst hnil
    have hh : head (head cs ++ joinWith '/' []) = head cs := by simp [joinWith, head_head]
    rw [components, headComponents_eq_of_head (q := p) (by simpa using hh), body]
    simp [joinWith, head_head, splitAt, isJunk]
  · have hsplit := splitAt_joinWith hnil hsep
    have hjoin : joinWith '/' bs ≠ [] := fun h => by
      rw [h] at hsplit
      exact hbs hsplit.symm
    have hcut : cs = (head cs ++ joinWith '/' bs) ++ '/' :: joinWith '/' rest := by
      rw [List.append_assoc, ← joinWith_append hnil hrest, ← hbody, body, joinWith_splitAt, ← hcs, head_append_drop]
    have hh : head (head cs ++ joinWith '/' bs) = head cs := by
      conv_rhs => rw [hcut, head_append_sep (by simp [hjoin])]
    rw [components, headComponents_eq_of_head (q := p) (by simpa using hh), body]
    simp [hh, hsplit]

theorem eq_of_dropWhile_eq_cons {α : Type} {f : α → Bool} {l bs : List α} {x : α} (h : l.dropWhile f = x :: bs) :
    f x = false ∧ ∃ js, (∀ j ∈ js, f j) ∧ l = js ++ x :: bs := by
  refine ⟨?_, l.takeWhile f, fun j hj => List.mem_takeWhile_imp hj, ?_⟩
  · have hx := List.head_dropWhile_not f (by rw [h]; simp : l.dropWhile f ≠ [])
    simpa [h] using hx
  · rw [← h, List.takeWhile_append_dropWhile]

/-- The parent of a path is the path without its last component. -/
theorem map_components_parent? (p : Path) :
    p.parent?.map components =
      if p.components = [] ∨ p.components = [.root] then none else some p.components.dropLast := by
  rw [parent?]
  split
  case h_1 x before h =>
    obtain ⟨hx, js, hjs, hrev⟩ := eq_of_dropWhile_eq_cons h
    set bs := (before.dropWhile isJunk).reverse with hbs
    obtain ⟨ks, hks, hbefore⟩ : ∃ ks, (∀ k ∈ ks, isJunk k) ∧ before = ks ++ bs.reverse :=
      ⟨before.takeWhile isJunk, fun k hk => List.mem_takeWhile_imp hk, by
        rw [hbs, List.reverse_reverse, List.takeWhile_append_dropWhile]⟩
    have hbody : p.body = bs ++ (ks.reverse ++ x :: js.reverse) := by
      rw [← List.reverse_reverse p.body, hrev, hbefore]
      simp
    have hne : bs ≠ [[]] := fun he => by
      have hd : before.dropWhile isJunk = [[]] := by rw [← List.reverse_reverse (before.dropWhile isJunk), ← hbs, he]; rfl
      exact absurd (eq_of_dropWhile_eq_cons hd).1 (by simp [isJunk])
    have hfilter : (p.body.filter fun piece => !isJunk piece) = (bs.filter fun piece => !isJunk piece) ++ [x] := by
      have h1 : (ks.reverse.filter fun piece => !isJunk piece) = [] :=
        List.filter_eq_nil_iff.mpr fun k hk => by simpa using hks k (List.mem_reverse.mp hk)
      have h2 : (js.reverse.filter fun piece => !isJunk piece) = [] :=
        List.filter_eq_nil_iff.mpr fun j hj => by simpa using hjs j (List.mem_reverse.mp hj)
      rw [hbody, List.filter_append, List.filter_append, h1, List.filter_cons_of_pos (by simpa using hx), h2]
      rfl
    have hcomps : p.components =
        (p.headComponents ++ (bs.filter fun piece => !isJunk piece).map Component.ofPiece) ++ [Component.ofPiece x] := by
      rw [components, hfilter]
      simp
    have hroot : ¬ (p.components = [] ∨ p.components = [.root]) := by
      rintro (hc | hc)
      · rw [hcomps] at hc; simp at hc
      · rw [hcomps] at hc
        have hlast := congrArg List.getLast? hc
        simp [ofPiece_ne_root] at hlast
    rw [if_neg hroot, Option.map_some, components_cut hbody (by simp) hne, hcomps, List.dropLast_concat]
  case h_2 h =>
    have hcomps : p.components = p.headComponents := by
      rw [components, List.filter_eq_nil_iff.mpr, List.map_nil, List.append_nil]
      intro piece hp
      have := List.dropWhile_eq_nil_iff.mp h piece (List.mem_reverse.mpr hp)
      simp [this]
    rw [hcomps, headComponents]
    rcases head_cases p.text.toList with hh | hh | hh <;> rw [hh] <;> simp [components_eq_nil_iff]

/-! ## Walking up from an absolute path -/

/-- The non-empty beginnings of a list of components, the longest first: a directory and all directories above it. -/
def atOrAbove (ks : List Component) : List (List Component) := ks.inits.tail.reverse

theorem atOrAbove_of_ne_nil {ks : List Component} (h : ks ≠ []) : atOrAbove ks = ks :: atOrAbove ks.dropLast := by
  obtain ⟨is, k, rfl⟩ : ∃ is k, ks = is ++ [k] := ⟨_, _, (List.dropLast_append_getLast h).symm⟩
  have hne : is.inits ≠ [] := by cases is <;> simp
  rw [atOrAbove, List.inits_append, List.tail_append_of_ne_nil hne, List.dropLast_concat]
  simp [atOrAbove]

theorem mem_atOrAbove {ks is : List Component} : is ∈ atOrAbove ks ↔ is ≠ [] ∧ is <+: ks := by
  rw [atOrAbove, List.mem_reverse]
  cases ks with
  | nil => simp
  | cons k ks =>
    rw [← List.mem_inits, List.inits_cons]
    have hnil : ∀ x ∈ ks.inits.map (k :: ·), x ≠ [] := by simp
    constructor
    · intro h
      exact ⟨hnil is h, List.mem_cons_of_mem _ h⟩
    · rintro ⟨hne, h⟩
      exact (List.mem_cons.mp h).resolve_left hne

theorem head?_of_mem_atOrAbove {ks is : List Component} (h : is ∈ atOrAbove ks) : is.head? = ks.head? := by
  obtain ⟨hne, t, rfl⟩ := mem_atOrAbove.mp h
  cases is with
  | nil => exact absurd rfl hne
  | cons i is => rfl

theorem components_ne_nil_of_isAbsolute {p : Path} (hp : p.isAbsolute) : p.components ≠ [] := fun h => by
  rw [isAbsolute_iff, h] at hp
  cases hp

theorem map_components_above? {p : Path} (hp : p.isAbsolute) :
    p.above?.map components = if p.components = [.root] then none else some p.components.dropLast := by
  have hne := components_ne_nil_of_isAbsolute hp
  have hparent := map_components_parent? p
  by_cases hroot : p.components = [.root]
  · rw [if_pos (.inr hroot), Option.map_eq_none_iff] at hparent
    rw [if_pos hroot, above?, hparent]
    rfl
  · rw [if_neg (not_or.mpr ⟨hne, hroot⟩)] at hparent
    obtain ⟨q, hq, hcomps⟩ := Option.map_eq_some_iff.mp hparent
    have htext : q.text ≠ "" := fun h => by
      -- besides the root there is another component, which leaves the root for the parent
      rw [components_eq_nil_iff.mpr h] at hcomps
      have hhead := isAbsolute_iff.mp hp
      match hks : p.components with
      | [] => exact hne hks
      | [k] => rw [hks] at hhead; exact hroot (by rw [hks, Option.some.inj hhead])
      | k :: l :: ks => rw [hks] at hcomps; cases hcomps
    rw [if_neg hroot, above?, hq]
    simp [htext, hcomps]

theorem isAbsolute_of_above? {p q : Path} (hp : p.isAbsolute) (h : p.above? = some q) : q.isAbsolute := by
  have hmap := map_components_above? hp
  have hhead := isAbsolute_iff.mp hp
  rw [h, Option.map_some] at hmap
  by_cases hroot : p.components = [.root]
  · rw [if_pos hroot] at hmap
    cases hmap
  · rw [if_neg hroot] at hmap
    rw [isAbsolute_iff, Option.some.inj hmap]
    match hks : p.components with
    | [] => exact absurd hks (components_ne_nil_of_isAbsolute hp)
    | [k] => rw [hks] at hhead; exact absurd (by rw [hks, Option.some.inj hhead]) hroot
    | k :: l :: ks => rwa [hks] at hhead

theorem map_components_upwardUpTo (count : ℕ) {p : Path} (hp : p.isAbsolute) (h : p.components.length ≤ count) :
    (upwardUpTo count p).map components = atOrAbove p.components := by
  have hne := components_ne_nil_of_isAbsolute hp
  induction count generalizing p with
  | zero => exact absurd (List.eq_nil_of_length_eq_zero (Nat.le_zero.mp h)) hne
  | succ count ih =>
    have hmap := map_components_above? hp
    rw [upwardUpTo, List.map_cons, atOrAbove_of_ne_nil hne]
    by_cases hroot : p.components = [.root]
    · rw [if_pos hroot, Option.map_eq_none_iff] at hmap
      rw [hmap, hroot]
      rfl
    · rw [if_neg hroot] at hmap
      obtain ⟨q, hq, hcomps⟩ := Option.map_eq_some_iff.mp hmap
      have hqa := isAbsolute_of_above? hp hq
      have hlen : q.components.length ≤ count := by
        rw [hcomps, List.length_dropLast]
        omega
      rw [hq, ← hcomps, ← ih hqa hlen (components_ne_nil_of_isAbsolute hqa)]

/-- From an absolute path the walk goes through the beginnings of its components. -/
theorem map_components_upward {p : Path} (hp : p.isAbsolute) : p.upward.map components = atOrAbove p.components :=
  map_components_upwardUpTo _ hp (Nat.le_succ _)

/-! ## File names -/

theorem fileName?_eq_some_iff {p : Path} {n : String} : p.fileName? = some n ↔ p.components.getLast? = some (.name n) := by
  rw [fileName?]
  split
  case h_1 t h => simp [h]
  case h_2 h => simpa using fun hn => h n hn

end Path

end TagLint

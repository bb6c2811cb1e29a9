import Mathlib.Data.List.Induction
import Mathlib.Data.List.Perm.Basic
import TagLint.Proofs.MapLookup
import TagLint.Session.OpenDocuments

/-!
# Edits — which documents are open after documents were opened, updated and closed

A run of edits starts with nothing open (`after`).  One edit changes what is open under its own path only
(`get?_edit`), so the last edit of a path decides, whatever happened to other paths in between.

* `get?_after_eq_some_iff`: a document is open at a path when it was written there, by an open or by an update while
  something was open, and the path was not edited since.
* `filter_toList`: the listing has what is open at a path, once; `pairwise_key_toList`: it is in path order.
* `eq_of_get?`: open documents are what is open at each path, so the order in which they were opened is forgotten
  (`after_opened_perm`).

`last_edit_counts` puts these together.
-/

open Std

namespace TagLint

theorem Path.same_iff {p q : Path} : p.same q ↔ p.components = q.components := beq_iff_eq

namespace OpenDocuments

variable {ds ds' : OpenDocuments} {p q : Path} {d d' : Document}

/-! ## Looking up by path -/

/-- Paths with the same components have the same document. -/
theorem get?_congr (h : p.same q) : ds.get? p = ds.get? q := by
  rw [get?, get?, Path.same_iff.mp h]

/-- A document is open under its own path. -/
theorem same_of_get? (h : ds.get? p = some d) : d.path.same p := by
  have hkey := ds.keyed _ (SortedMap.get?_eq_some_iff.mp h)
  exact Path.same_iff.mpr hkey

theorem get?_put (ds : OpenDocuments) (d : Document) (p : Path) :
    (ds.put d).get? p = if d.path.same p then some d else ds.get? p := by
  have hinsert : (ds.put d).get? p = if p.components = d.key then some d else ds.get? p :=
    SortedMap.get?_insert ds.byKey d.key p.components d
  rw [hinsert]
  by_cases h : d.path.same p
  · have hkey : p.components = d.key := (Path.same_iff.mp h).symm
    rw [if_pos h, if_pos hkey]
  · have hkey : p.components ≠ d.key := fun heq => h (Path.same_iff.mpr heq.symm)
    rw [if_neg h, if_neg hkey]

theorem get?_remove (ds : OpenDocuments) (p q : Path) :
    (ds.remove p).get? q = if p.same q then none else ds.get? q := by
  have herase : (ds.remove p).get? q = if q.components = p.components then none else ds.get? q :=
    SortedMap.get?_erase ds.byKey p.components q.components
  rw [herase]
  by_cases h : p.same q
  · rw [if_pos h, if_pos (Path.same_iff.mp h).symm]
  · rw [if_neg h, if_neg fun heq => h (Path.same_iff.mpr heq.symm)]

/-- Open documents are what is open at each path. -/
theorem eq_of_get? (h : ∀ p, ds'.get? p = ds.get? p) : ds' = ds := by
  have hkeys : ∀ ks, ds'.byKey.get? ks = ds.byKey.get? ks := by
    intro ks
    refine Option.ext fun d => ?_
    -- an open document is looked up by its own path
    have hpath : ∀ {es : OpenDocuments}, es.byKey.get? ks = some d → ks = d.path.components := fun {es} hd =>
      (es.keyed _ (SortedMap.get?_eq_some_iff.mp hd)).symm
    constructor
    · intro hd
      have hks := hpath hd
      subst hks
      exact (h d.path).symm.trans hd
    · intro hd
      have hks := hpath hd
      subst hks
      exact (h d.path).trans hd
  have hmap := SortedMap.ext_get? hkeys
  cases ds
  cases ds'
  subst hmap
  rfl

/-! ## Edits -/

/-- What an editor does to its documents. -/
inductive Edit
  | openDocument (d : Document)
  | update (d : Document)
  | close (p : Path)

/-- The path that an edit is about. -/
def Edit.path : Edit → Path
  | .openDocument d | .update d => d.path
  | .close p => p

/-- What an edit leaves open at its path, where `before?` was open. -/
def Edit.leaves (before? : Option Document) : Edit → Option Document
  | .openDocument d => some d
  | .update d => before?.map fun _ => d
  | .close _ => none

/-- The open documents after an edit. -/
def edit (ds : OpenDocuments) : Edit → OpenDocuments
  | .openDocument d => (ds.openDocument d).value
  | .update d => (ds.update d).value.2
  | .close p => (ds.close p).value.2

/-- The open documents after some edits. -/
def after (edits : List Edit) : OpenDocuments := edits.foldl edit empty

theorem after_concat (edits : List Edit) (e : Edit) : after (edits ++ [e]) = (after edits).edit e := by
  rw [after, List.foldl_concat]
  rfl

/-- An update replaces what is open at its path; without an open document it says so and does nothing. -/
theorem value_update (ds : OpenDocuments) (d : Document) :
    (ds.update d).value = if (ds.get? d.path).isSome then (true, ds.put d) else (false, ds) := by
  have hcontains : ds.byKey.contains d.key = (ds.get? d.path).isSome := rfl
  rw [update, hcontains]
  split_ifs <;> rfl

/-- An edit changes what is open at its path and nowhere else. -/
theorem get?_edit (ds : OpenDocuments) (e : Edit) (p : Path) :
    (ds.edit e).get? p = if e.path.same p then e.leaves (ds.get? p) else ds.get? p := by
  cases e with
  | openDocument d => exact get?_put ds d p
  | close q => exact get?_remove ds q p
  | update d =>
    show (ds.update d).value.2.get? p = if d.path.same p then (ds.get? p).map fun _ => d else ds.get? p
    rw [value_update]
    by_cases hsome : (ds.get? d.path).isSome
    · rw [if_pos hsome, get?_put]
      by_cases hp : d.path.same p
      · obtain ⟨old, hold⟩ := Option.isSome_iff_exists.mp hsome
        rw [get?_congr hp] at hold
        rw [if_pos hp, if_pos hp, hold]
        rfl
      · rw [if_neg hp, if_neg hp]
    · rw [if_neg hsome]
      by_cases hp : d.path.same p
      · have hnone : ds.get? p = none := by
          rw [← get?_congr hp]
          exact Option.not_isSome_iff_eq_none.mp hsome
        rw [if_pos hp, hnone]
        rfl
      · rw [if_neg hp]

/-! ## Runs of edits -/

/-- An edit writes a document: it opens it, or updates it successfully, after the edits before. -/
def Writes (before : List Edit) (d : Document) (e : Edit) : Prop :=
  e = .openDocument d ∨ e = .update d ∧ ((after before).update d).value.1 = true

/-- Where an element of a list with one more at the end stands: it is that last one, or stands in front of it. -/
theorem concat_eq_append_cons_iff {α : Type} {as bs cs : List α} {a b : α} :
    as ++ [a] = bs ++ b :: cs ↔ (as = bs ∧ a = b ∧ cs = []) ∨ ∃ front, cs = front ++ [a] ∧ as = bs ++ b :: front := by
  constructor
  · intro h
    rcases List.eq_nil_or_concat cs with rfl | ⟨front, c, rfl⟩
    · obtain ⟨rfl, hcons⟩ := List.append_inj' h rfl
      exact .inl ⟨rfl, List.singleton_inj.mp hcons, rfl⟩
    · rw [List.concat_eq_append, ← List.cons_append, ← List.append_assoc] at h
      obtain ⟨rfl, hcons⟩ := List.append_inj' h rfl
      exact .inr ⟨front, by rw [List.concat_eq_append, hcons], rfl⟩
  · rintro (⟨rfl, rfl, rfl⟩ | ⟨front, rfl, rfl⟩)
    · rfl
    · rw [List.append_assoc, List.cons_append]

theorem leaves_eq_some_iff {before : List Edit} {e : Edit} (hp : e.path.same p) :
    e.leaves ((after before).get? p) = some d ↔ d.path.same p ∧ Writes before d e := by
  cases e with
  | openDocument new =>
    constructor
    · intro h
      obtain rfl := Option.some.inj h
      exact ⟨hp, .inl rfl⟩
    · rintro ⟨-, h | ⟨h, -⟩⟩
      · cases h
        rfl
      · cases h
  | update new =>
    have hsame : (after before).get? p = (after before).get? new.path := (get?_congr hp).symm
    constructor
    · intro h
      obtain ⟨old, hold, rfl⟩ := Option.map_eq_some_iff.mp h
      refine ⟨hp, .inr ⟨rfl, ?_⟩⟩
      rw [value_update, ← hsame, hold]
      rfl
    · rintro ⟨-, h | ⟨h, hknown⟩⟩
      · cases h
      · cases h
        rw [value_update] at hknown
        split_ifs at hknown with hsome
        obtain ⟨old, hold⟩ := Option.isSome_iff_exists.mp hsome
        rw [hsame, hold]
        rfl
  | close q =>
    constructor
    · intro h
      cases h
    · rintro ⟨-, h | ⟨h, -⟩⟩ <;> cases h

/-- A document is open at a path when it was written there and the path was not edited since. -/
theorem get?_after_eq_some_iff {edits : List Edit} :
    (after edits).get? p = some d ↔
      d.path.same p ∧ ∃ before e later, edits = before ++ e :: later ∧ Writes before d e ∧
        ∀ x ∈ later, ¬ x.path.same p := by
  induction edits using List.reverseRecOn with
  | nil =>
    constructor
    · intro h
      cases h
    · rintro ⟨-, before, e, later, heq, -⟩
      simp at heq
  | append_singleton edits last ih =>
    rw [after_concat, get?_edit]
    by_cases hlast : last.path.same p
    · rw [if_pos hlast, leaves_eq_some_iff hlast]
      constructor
      · rintro ⟨hd, hwrites⟩
        exact ⟨hd, edits, last, [], rfl, hwrites, by simp⟩
      · rintro ⟨hd, before, e, later, heq, hwrites, hlater⟩
        rcases concat_eq_append_cons_iff.mp heq with ⟨rfl, rfl, -⟩ | ⟨front, rfl, -⟩
        · exact ⟨hd, hwrites⟩
        · -- nothing edits the path behind the write, so the write is the last edit
          exact absurd hlast (hlater last (by simp))
    · rw [if_neg hlast, ih]
      constructor
      · rintro ⟨hd, before, e, later, rfl, hwrites, hlater⟩
        refine ⟨hd, before, e, later ++ [last], by simp, hwrites, fun x hx => ?_⟩
        rcases List.mem_append.mp hx with hx | hx
        · exact hlater x hx
        · rw [List.mem_singleton.mp hx]
          exact hlast
      · rintro ⟨hd, before, e, later, heq, hwrites, hlater⟩
        rcases concat_eq_append_cons_iff.mp heq with ⟨rfl, rfl, -⟩ | ⟨front, rfl, rfl⟩
        · have hpath : last.path = d.path := by
            rcases hwrites with rfl | ⟨rfl, -⟩ <;> rfl
          rw [hpath] at hlast
          exact absurd hd hlast
        · exact ⟨hd, before, e, front, rfl, hwrites, fun x hx => hlater x (List.mem_append_left _ hx)⟩

/-! ## Listing -/

theorem mem_toList_iff : d ∈ ds.toList ↔ ds.get? d.path = some d := by
  rw [toList, SortedMap.values, List.mem_map, get?, SortedMap.get?_eq_some_iff]
  constructor
  · rintro ⟨⟨ks, d'⟩, he, rfl⟩
    obtain rfl : d'.path.components = ks := ds.keyed _ he
    exact he
  · intro he
    exact ⟨_, he, rfl⟩

/-- Documents are listed in the strict order of the components of their paths. -/
theorem pairwise_key_toList (ds : OpenDocuments) : ds.toList.Pairwise fun a b => compare a.key b.key = .lt := by
  rw [toList, SortedMap.values, List.pairwise_map]
  refine ds.byKey.ordered.imp_of_mem fun {a b} ha hb hab => ?_
  rw [ds.keyed a ha, ds.keyed b hb]
  exact hab

/-- The listing has what is open at a path, once. -/
theorem filter_toList (ds : OpenDocuments) (p : Path) :
    ds.toList.filter (fun d => d.path.same p) = (ds.get? p).toList := by
  have hnodup : ds.toList.Nodup := ds.pairwise_key_toList.imp fun hab heq =>
    SortedMap.ne_of_compare_lt hab (congrArg Document.key heq)
  have hmem : ∀ d, d ∈ ds.toList.filter (fun d => d.path.same p) ↔ ds.get? p = some d := by
    intro d
    rw [List.mem_filter, mem_toList_iff]
    constructor
    · rintro ⟨hget, hsame⟩
      rw [← get?_congr hsame]
      exact hget
    · intro hget
      have hsame := same_of_get? hget
      rw [get?_congr hsame]
      exact ⟨hget, hsame⟩
  cases hget : ds.get? p with
  | none =>
    rw [Option.toList_none, List.eq_nil_iff_forall_not_mem]
    intro d hd
    rw [hmem, hget] at hd
    cases hd
  | some d =>
    have hperm : (ds.toList.filter fun d => d.path.same p).Perm [d] :=
      (List.perm_ext_iff_of_nodup (hnodup.filter _) (List.nodup_singleton d)).mpr fun d' => by
        rw [hmem, hget, Option.some.injEq, List.mem_singleton, eq_comm]
    rw [List.perm_singleton.mp hperm, Option.toList_some]

/-- The first document at a path in the listing is the one that is open there. -/
theorem find?_toList (ds : OpenDocuments) (p : Path) : ds.toList.find? (fun d => d.path.same p) = ds.get? p := by
  rw [← List.head?_filter, filter_toList]
  cases ds.get? p <;> rfl

theorem size_eq_length_toList (ds : OpenDocuments) : ds.size = ds.toList.length := by
  rw [toList, SortedMap.values, List.length_map]
  rfl

/-! ## The order of opening -/

/-- Documents of different paths can be opened in either order. -/
theorem put_comm (ds : OpenDocuments) (h : d.key ≠ d'.key) : (ds.put d).put d' = (ds.put d').put d := by
  refine eq_of_get? fun p => ?_
  rw [get?_put, get?_put, get?_put, get?_put]
  by_cases h1 : d.path.same p
  · have h2 : ¬ d'.path.same p := fun h2 =>
      h ((Path.same_iff.mp h1).trans (Path.same_iff.mp h2).symm)
    rw [if_neg h2, if_pos h1, if_pos h1]
  · rw [if_neg h1, if_neg h1]

theorem after_opened (edits : List Edit) (opened : List Document) :
    after (edits ++ opened.map .openDocument) = opened.foldl put (after edits) := by
  rw [after, List.foldl_append, List.foldl_map]
  rfl

theorem after_opened_perm (edits : List Edit) {opened opened' : List Document} (h : opened.Perm opened')
    (hkeys : (opened.map Document.key).Nodup) :
    after (edits ++ opened'.map .openDocument) = after (edits ++ opened.map .openDocument) := by
  rw [after_opened, after_opened]
  refine (h.foldl_eq' (fun d hd d' hd' ds => ?_) _).symm
  by_cases heq : d = d'
  · rw [heq]
  · exact put_comm ds fun hkey => heq (List.inj_on_of_nodup_map hkeys hd hd' hkey)

/-- **The last edit counts.**  What is open at a path was written by the last edit of that path.  An update answers
whether something is open and otherwise does nothing, closing gives and removes what is open, and an edit of one path
leaves all others alone.  Every open document is listed once, in path order, whatever the order of opening. -/
theorem last_edit_counts (edits : List Edit) :
    let ds := after edits
    (∀ p d, ds.get? p = some d ↔ d.path.same p ∧ ∃ before e later, edits = before ++ e :: later ∧
      Writes before d e ∧ ∀ x ∈ later, ¬ x.path.same p) ∧
    (∀ d, (ds.update d).value.1 = (ds.get? d.path).isSome ∧
      (ds.get? d.path = none → (ds.update d).value.2 = ds)) ∧
    (∀ p, (ds.close p).value.1 = ds.get? p ∧
      ∀ q, (ds.close p).value.2.get? q = if p.same q then none else ds.get? q) ∧
    (∀ e q, ¬ Path.same e.path q → (ds.edit e).get? q = ds.get? q) ∧
    (∀ p, ds.toList.filter (fun d => d.path.same p) = (ds.get? p).toList) ∧
    ds.toList.Pairwise (fun a b => compare a.key b.key = .lt) ∧
    ds.size = ds.toList.length ∧
    (∀ other, (∀ p, (after other).get? p = ds.get? p) → (after other).toList = ds.toList) ∧
    ∀ opened opened', List.Perm opened opened' → (opened.map Document.key).Nodup →
      (after (edits ++ opened'.map .openDocument)).toList = (after (edits ++ opened.map .openDocument)).toList := by
  intro ds
  refine ⟨fun p d => get?_after_eq_some_iff, fun d => ⟨?_, fun hnone => ?_⟩, fun p => ⟨rfl, get?_remove ds p⟩,
    fun e q hother => ?_, filter_toList ds, pairwise_key_toList ds, size_eq_length_toList ds, fun other hsame => ?_,
    fun opened opened' hperm hkeys => ?_⟩
  · rw [value_update]
    cases (ds.get? d.path).isSome <;> rfl
  · rw [value_update, hnone]
    rfl
  · rw [get?_edit, if_neg hother]
  · rw [eq_of_get? hsame]
  · rw [after_opened_perm edits hperm hkeys]

/-- A page without text. -/
def blankPage (path : String) (version : Int) : Document := ⟨⟨path⟩, "", [], version⟩

/-- A page is updated before it is opened and again, under other spellings of its path; another one is closed. -/
def sampleEdits : List Edit :=
  [.update (blankPage "/p/a.isml" 1), .openDocument (blankPage "/p/b.isml" 1), .openDocument (blankPage "/p//a.isml" 2),
    .openDocument (blankPage "/p/c.isml" 1), .update (blankPage "/p/./a.isml" 3), .close ⟨"/p/c.isml/"⟩]

theorem last_edit_counts_sampleEdits :
    let ds := after sampleEdits
    let closed := blankPage "/p/c.isml" 2
    let opened := [blankPage "/d.isml" 1, blankPage "/p/d.isml" 1]
    ds.get? ⟨"/p/a.isml"⟩ = some (blankPage "/p/./a.isml" 3) ∧
    ds.get? closed.path = none ∧ (ds.update closed).value.2 = ds ∧
    ¬ Path.same (Edit.path (.close ⟨"/p/b.isml"⟩)) ⟨"/p/a.isml"⟩ ∧
    (ds.edit (.close ⟨"/p/b.isml"⟩)).get? ⟨"/p/a.isml"⟩ = some (blankPage "/p/./a.isml" 3) ∧
    ds.toList.map (fun d => (d.path.text, d.version)) = [("/p/./a.isml", 3), ("/p/b.isml", 1)] ∧
    opened.Perm opened.reverse ∧ (opened.map Document.key).Nodup ∧
    (after (sampleEdits ++ opened.reverse.map .openDocument)).toList =
      (after (sampleEdits ++ opened.map .openDocument)).toList := by
  intro ds closed opened
  obtain ⟨hget, hupdate, -, hframe, -, -, -, -, hperm⟩ := last_edit_counts sampleEdits
  have hknown : ((after (sampleEdits.take 4)).update (blankPage "/p/./a.isml" 3)).value.1 = true := by decide
  have hwritten : ds.get? ⟨"/p/a.isml"⟩ = some (blankPage "/p/./a.isml" 3) :=
    (hget _ _).mpr ⟨by decide, sampleEdits.take 4, _, [.close ⟨"/p/c.isml/"⟩], rfl, .inr ⟨rfl, hknown⟩, by decide⟩
  have hclosed : ds.get? closed.path = none := Option.isNone_iff_eq_none.mp (by decide)
  have hother : ¬ Path.same (Edit.path (.close ⟨"/p/b.isml"⟩)) ⟨"/p/a.isml"⟩ := by decide
  have hreverse : opened.Perm opened.reverse := (List.reverse_perm opened).symm
  have hkeys : (opened.map Document.key).Nodup := by decide
  exact ⟨hwritten, hclosed, (hupdate closed).2 hclosed, hother, (hframe _ _ hother).trans hwritten, by decide, hreverse,
    hkeys, hperm _ _ hreverse hkeys⟩

end OpenDocuments

end TagLint

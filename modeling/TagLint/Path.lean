import TagLint.Text.Split

/-!
# Paths — file paths by their components

A path is a text; what it names depends on its components alone.  Repeated and trailing separators and `.` between
components do not count, a leading `.` of a relative path does, and `..` is a component like any other.
-/

open Std

namespace TagLint

/-- A component of a path. -/
inductive Component
  /-- The root of an absolute path. -/
  | root
  /-- The leading `.` of a relative path. -/
  | here
  | up
  | name (text : String)
  deriving DecidableEq, Repr

namespace Component

/-- The order of components: the root, `.`, `..`, names. -/
def rank : Component → Nat
  | .root => 0
  | .here => 1
  | .up => 2
  | .name _ => 3

def nameText : Component → String
  | .name text => text
  | _ => ""

instance : Ord Component := ⟨compareLex (compareOn rank) (compareOn nameText)⟩

instance : TransOrd Component := inferInstanceAs (TransCmp (compareLex (compareOn rank) (compareOn nameText)))

instance : LawfulEqOrd Component where
  eq_of_compare {a b} h := by
    have h' : compareLex (compareOn rank) (compareOn nameText) a b = .eq := h
    rw [compareLex_eq_eq] at h'
    have h1 : a.rank = b.rank := LawfulEqCmp.eq_of_compare h'.1
    have h2 : a.nameText = b.nameText := LawfulEqCmp.eq_of_compare h'.2
    cases a <;> cases b <;> simp_all [rank, nameText]
  compare_self := ReflCmp.compare_self

end Component

/-- A file path. -/
structure Path where
  text : String
  deriving DecidableEq, Repr, Inhabited

namespace Path

/-- The text of a path before its components: the root of an absolute one, the leading `.` of a relative one. -/
def head : List Char → List Char
  | '/' :: _ => ['/']
  | ['.'] => ['.']
  | '.' :: '/' :: _ => ['.']
  | _ => []

/-- Pieces that are no components. -/
def isJunk (piece : List Char) : Bool := piece = [] || piece = ['.']

/-- The pieces after the head, between separators. -/
def body (p : Path) : List (List Char) :=
  Text.splitAt '/' (p.text.toList.drop (head p.text.toList).length)

def Component.ofPiece (piece : List Char) : Component :=
  if piece = ['.', '.'] then .up else .name (String.ofList piece)

def headComponents (p : Path) : List Component :=
  match head p.text.toList with
  | ['/'] => [.root]
  | ['.'] => [.here]
  | _ => []

/-- The components of a path. -/
def components (p : Path) : List Component :=
  p.headComponents ++ (p.body.filter fun piece => !isJunk piece).map Component.ofPiece

/-- Paths with the same components name the same file. -/
def same (p q : Path) : Bool := p.components == q.components

def isAbsolute (p : Path) : Bool := p.text.toList.head? = some '/'

/-- The path `q` as seen from `p`; an absolute path stays as it is. -/
def join (p q : Path) : Path :=
  if q.isAbsolute then q
  else if p.text.isEmpty ∨ p.text.toList.getLast? = some '/' then ⟨p.text ++ q.text⟩
  else ⟨p.text ++ "/" ++ q.text⟩

/-- The path without its last component, if it has one besides the root. -/
def parent? (p : Path) : Option Path :=
  match p.body.reverse.dropWhile isJunk with
  | _ :: before =>
    some ⟨String.ofList (head p.text.toList ++ Text.joinWith '/' (before.dropWhile isJunk).reverse)⟩
  | [] => if p.headComponents = [.here] then some ⟨""⟩ else none

/-- The last component, when it is a name. -/
def fileName? (p : Path) : Option String :=
  match p.components.getLast? with
  | some (.name text) => some text
  | _ => none

/-- Whether the components of `q` begin those of `p`. -/
def startsWith (p q : Path) : Bool := q.components.isPrefixOf p.components

/-- The components left of two lists after those that they begin with in common. -/
def dropCommon : List Component → List Component → List Component × List Component
  | a :: as, b :: bs => if a = b then dropCommon as bs else (a :: as, b :: bs)
  | as, bs => (as, bs)

def Component.text : Component → String
  | .root => "/"
  | .here => "."
  | .up => ".."
  | .name text => text

/-- The relative path from `base` to `p`, when both are absolute. -/
def seenFrom (p base : Path) : Path :=
  if p.isAbsolute ∧ base.isAbsolute then
    let (rest, back) := dropCommon p.components base.components
    ⟨String.intercalate "/" ((back.map fun _ => "..") ++ rest.map Component.text)⟩
  else p

/-! ## Walking up -/

/-- The current directory. -/
def here : Path := ⟨"."⟩

/-- The directory above: a relative path that runs out of components is in the current directory. -/
def above? (p : Path) : Option Path :=
  match p.parent? with
  | some q => if q.text.isEmpty then (if p.same here then none else some here) else some q
  | none => none

/-- A path and the directories above it, at most `count` in all. -/
def upwardUpTo : Nat → Path → List Path
  | 0, _ => []
  | count + 1, p =>
    p :: match p.above? with
      | some q => upwardUpTo count q
      | none => []

/-- A path and all directories above it, the nearest first. -/
def upward (p : Path) : List Path := upwardUpTo (p.components.length + 1) p

end Path

end TagLint

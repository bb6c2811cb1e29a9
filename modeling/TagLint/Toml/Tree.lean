import TagLint.Toml.Value

/-!
# Trees — a TOML document while it is read

A table may be opened by a header once, and may be given entries by dotted keys as long as no header opened it.
Tables on the way to a header's own are implied: a later header may still open them, unless dotted keys gave them
entries before.
-/

namespace TagLint.Toml

/-- How a table came to be. -/
inductive Origin
  /-- Opened by its header. -/
  | header
  /-- On the way to the table of another header. -/
  | implied
  /-- Made by a dotted key, or given entries by one. -/
  | dotted
  deriving DecidableEq, Repr

inductive Node
  | value (v : Toml)
  | table (origin : Origin) (entries : List (String × Node))
  /-- The tables of a repeated header, the latest first. -/
  | tables (elements : List (List (String × Node)))

/-- A table while it is read. -/
abbrev Table := List (String × Node)

namespace Table

/-- Give a value to a dotted key that has none.  The tables on its way must not have been opened by a header; those
that were implied count as made by dotted keys from then on. -/
def assign (v : Toml) : List String → Table → Option Table
  | [], _ => none
  | [k], t => if (lookup? t k).isSome then none else some (put k (.value v) t)
  | k :: k' :: ks, t =>
    match lookup? t k with
    | none => (assign v (k' :: ks) []).map fun inner => put k (.table .dotted inner) t
    | some (.table origin inner) =>
      if origin = .header then none
      else (assign v (k' :: ks) inner).map fun inner => put k (.table .dotted inner) t
    | some (.tables (inner :: before)) =>
      if ks = [] then none
      else (assign v (k' :: ks) inner).map fun inner => put k (.tables (inner :: before)) t
    | some _ => none

/-- Change the table at a path; tables that are missing on the way are implied. -/
def updateAt (f : Table → Option Table) : List String → Table → Option Table
  | [], t => f t
  | k :: ks, t =>
    match lookup? t k with
    | none => (updateAt f ks []).map fun inner => put k (.table .implied inner) t
    | some (.table origin inner) => (updateAt f ks inner).map fun inner => put k (.table origin inner) t
    | some (.tables (inner :: before)) =>
      (updateAt f ks inner).map fun inner => put k (.tables (inner :: before)) t
    | some _ => none

/-- Open the table of a header. -/
def openTable (k : String) (t : Table) : Option Table :=
  match lookup? t k with
  | none => some (put k (.table .header []) t)
  | some (.table .implied inner) => some (put k (.table .header inner) t)
  | some _ => none

/-- Open one more table of a repeated header. -/
def openElement (k : String) (t : Table) : Option Table :=
  match lookup? t k with
  | none => some (put k (.tables [[]]) t)
  | some (.tables elements) => some (put k (.tables ([] :: elements)) t)
  | some _ => none

end Table

/-! ## The finished document -/

mutual

def Node.finish : Node → Toml
  | .value v => v
  | .table _ entries => .table (finishEntries entries)
  | .tables elements => .array (finishElements elements).reverse

def finishEntries : List (String × Node) → List (String × Toml)
  | [] => []
  | (k, n) :: es => (k, n.finish) :: finishEntries es

def finishElements : List (List (String × Node)) → List Toml
  | [] => []
  | t :: ts => .table (finishEntries t) :: finishElements ts

end

end TagLint.Toml

import TagLint.Document
import TagLint.Log
import TagLint.SortedMap

/-!
# Open documents — what an editor has open

At most one document is open under a path.  Documents are listed in the order of the components of their paths.
-/

namespace TagLint

/-- The open documents by the components of their paths. -/
structure OpenDocuments where
  byKey : SortedMap (List Component) Document
  keyed : ∀ e ∈ byKey.entries, e.2.key = e.1

namespace OpenDocuments

/-- Nothing is open. -/
def empty : OpenDocuments := ⟨.empty, nofun⟩

/-- The open document at a path. -/
def get? (ds : OpenDocuments) (p : Path) : Option Document := ds.byKey.get? p.components

/-- The open documents in the order of their paths. -/
def toList (ds : OpenDocuments) : List Document := ds.byKey.values

def size (ds : OpenDocuments) : Nat := ds.byKey.size

def isEmpty (ds : OpenDocuments) : Bool := ds.byKey.isEmpty

/-- Put a document under its path. -/
def put (ds : OpenDocuments) (d : Document) : OpenDocuments where
  byKey := ds.byKey.insert d.key d
  keyed e he := (SortedMap.mem_insertEntry he).elim (fun h => h ▸ rfl) (ds.keyed e)

/-- Leave out the document at a path. -/
def remove (ds : OpenDocuments) (p : Path) : OpenDocuments where
  byKey := ds.byKey.erase p.components
  keyed e he := ds.keyed e (List.mem_filter.1 he).1

/-- Open a document, in place of one that is open under the same path. -/
def openDocument (ds : OpenDocuments) (d : Document) : Logged OpenDocuments := do
  Logged.say .debug ("Opening document " ++ d.path.text)
  return ds.put d

/-- Replace an open document; also whether one was open. -/
def update (ds : OpenDocuments) (d : Document) : Logged (Bool × OpenDocuments) :=
  if ds.byKey.contains d.key then do
    Logged.say .debug ("Updating document " ++ d.path.text)
    return (true, ds.put d)
  else do
    Logged.say .warn ("Update for document that is not open: " ++ d.path.text)
    return (false, ds)

/-- Close the document at a path; also the document that was open. -/
def close (ds : OpenDocuments) (p : Path) : Logged (Option Document × OpenDocuments) := do
  Logged.say .debug ("Closing document " ++ p.text)
  return (ds.get? p, ds.remove p)

end OpenDocuments

end TagLint

import TagLint.Path
import TagLint.Tag.EventJson

/-!
# Documents — a source file with the events of its tags
-/

namespace TagLint

/-- A source file, the events that stand for it, and the version an editor gave it. -/
structure Document where
  path : Path
  text : String
  events : List Event
  version : Int := 0

/-- The document whose events stand in a JSON text: all of them, or none. -/
def Document.ofEventsText (path : Path) (text eventsText : String) : Except Json.Refusal Document :=
  (Event.parseStream eventsText).map fun events => { path, text, events }

/-- The components of a document's path, by which it is known. -/
def Document.key (d : Document) : List Component := d.path.components

end TagLint

/-!
# Comments — removing them from a JSON text

A line comment runs from two slashes to the end of the line, a block comment from a slash and a star to the next
star and slash after them.  Inside string literals neither begins.  Line feeds are kept, so that every place in
the result is on the line it had in the text.
-/

namespace TagLint.Json

/-- Where a character stands. -/
inductive Region
  /-- Outside string literals and comments. -/
  | code
  | literal
  /-- After a backslash in a string literal. -/
  | escape
  | lineComment
  /-- `star`: right after a star of the comment's text. -/
  | blockComment (star : Bool)
  deriving DecidableEq, Repr

/-- The text without its comments, read from a region on. -/
def stripFrom : Region → List Char → List Char
  | _, [] => []
  | .code, '/' :: '/' :: cs => stripFrom .lineComment cs
  | .code, '/' :: '*' :: cs => stripFrom (.blockComment false) cs
  | .code, c :: cs => c :: stripFrom (if c = '"' then .literal else .code) cs
  | .literal, c :: cs => c :: stripFrom (if c = '\\' then .escape else if c = '"' then .code else .literal) cs
  | .escape, c :: cs => c :: stripFrom .literal cs
  | .lineComment, c :: cs => if c = '\n' then '\n' :: stripFrom .code cs else stripFrom .lineComment cs
  | .blockComment star, c :: cs =>
    if star && c = '/' then stripFrom .code cs
    else if c = '\n' then '\n' :: stripFrom (.blockComment false) cs
    else stripFrom (.blockComment (c = '*')) cs

/-- The text without its comments. -/
def stripComments (text : List Char) : List Char := stripFrom .code text

end TagLint.Json

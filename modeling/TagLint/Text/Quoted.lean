import TagLint.Text.Printable

/-!
# Quoted text — a string between double quotes with its odd characters escaped

Quotes and backslashes are escaped by a backslash, the usual controls by a letter, and every other character that
is not shown as itself by its code point in braces.
-/

namespace TagLint.Text

/-- One character as it stands between double quotes. -/
def quoteChar (c : Char) : List Char :=
  match c with
  | '\x00' => ['\\', '0']
  | '\t' => ['\\', 't']
  | '\r' => ['\\', 'r']
  | '\n' => ['\\', 'n']
  | '"' => ['\\', '"']
  | '\\' => ['\\', '\\']
  | c => if isPrintable c then [c] else "\\u\x7b".toList ++ Nat.toDigits 16 c.toNat ++ "\x7d".toList

/-- A string between double quotes. -/
def quote (s : String) : String :=
  String.ofList ('"' :: s.toList.flatMap quoteChar ++ ['"'])

/-- A list of strings between square brackets, each quoted. -/
def quoteList (ss : List String) : String :=
  "[" ++ String.intercalate ", " (ss.map quote) ++ "]"

end TagLint.Text

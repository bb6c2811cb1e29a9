/-!
# Addresses — the documentation page of a rule

The address of a rule holds its id as it is.  An id with a character that no address may hold has no page.
-/

namespace TagLint.Report

/-- Characters that a path, query or fragment may hold as they are. -/
def isUriChar (c : Char) : Bool := c.isAlphanum || "-._~!$&'()*+,;=:@/?".toList.contains c

def isHexDigit (c : Char) : Bool := c.isDigit || ('a' ≤ c && c ≤ 'f') || ('A' ≤ c && c ≤ 'F')

/-- Whether a text may stand after the authority of an address: percent signs come with two hexadecimal digits,
and at most one fragment begins. -/
def isUriRest (fragment : Bool) : List Char → Bool
  | [] => true
  | '%' :: a :: b :: cs => isHexDigit a && isHexDigit b && isUriRest fragment cs
  | c :: cs => if c = '#' then !fragment && isUriRest true cs else isUriChar c && isUriRest fragment cs

/-- The page of a rule. -/
def rulePage? (ruleId : String) : Option String :=
  if isUriRest false (ruleId.toList ++ ['/']) then some ("https://htmlhint.com/rules/" ++ ruleId ++ "/") else none

end TagLint.Report

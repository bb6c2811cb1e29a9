import TagLint.Log

/-!
# Log lines — a log as the program prints it
-/

namespace TagLint.CommandLine

/-- The name of a level, all of one width. -/
def levelTag : LogLevel → String
  | .error => "ERROR"
  | .warn => " WARN"
  | .info => " INFO"
  | .debug => "DEBUG"
  | .trace => "TRACE"

/-- A character as it is printed: those that terminals act upon are spelled out. -/
def printable (c : Char) : List Char :=
  match c with
  | '\x1b' => "\\x1b".toList
  | '\x07' => "\\x07".toList
  | '\x08' => "\\x08".toList
  | '\x0c' => "\\x0c".toList
  | '\x7f' => "\\x7f".toList
  | c =>
    if 0x80 ≤ c.toNat ∧ c.toNat ≤ 0x9f then
      "\\u\x7b".toList ++ Nat.toDigits 16 c.toNat ++ ['\x7d']
    else [c]

def logLine (e : LogEntry) : String :=
  levelTag e.level ++ " " ++ String.ofList (e.message.toList.flatMap printable) ++ "\n"

/-- The lines of a log up to a level. -/
def logLines (level : LogLevel) (log : List LogEntry) : String :=
  String.join ((log.filter fun e => e.level.rank ≤ level.rank).map logLine)

end TagLint.CommandLine

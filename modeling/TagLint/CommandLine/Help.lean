/-!
# Help — the pages that explain the program
-/

namespace TagLint.CommandLine

/-- What a page is about. -/
inductive HelpPage
  | program
  | check
  | help
  deriving DecidableEq, Repr

namespace HelpPage

def lines : HelpPage → List String
  | .program =>
    ["ISML tag-grammar linter",
     "",
     "Usage: isls [OPTIONS] <COMMAND>",
     "",
     "Commands:",
     "  check  Validate an ISML file against its tokenizer events",
     "  help   Print this message or the help of the given subcommand(s)",
     "",
     "Options:",
     "  -q, --quiet       Only report the summary line",
     "  -v, --verbose...  Log more detail to stderr. Repeat for debug output",
     "  -h, --help        Print help",
     "  -V, --version     Print version"]
  | .check =>
    ["Validate an ISML file against its tokenizer events",
     "",
     "Usage: isls check [OPTIONS] --events <EVENTS> <SOURCE>",
     "",
     "Arguments:",
     "  <SOURCE>  ISML file to check",
     "",
     "Options:",
     "      --events <EVENTS>  JSON array of tokenizer events for SOURCE",
     "  -q, --quiet            Only report the summary line",
     "      --config <CONFIG>  Rule configuration to use instead of discovering `.htmlhintrc` files",
     "  -v, --verbose...       Log more detail to stderr. Repeat for debug output",
     "  -h, --help             Print help"]
  | .help =>
    ["Print this message or the help of the given subcommand(s)",
     "",
     "Usage: isls help [COMMAND]...",
     "",
     "Arguments:",
     "  [COMMAND]...  Print help for the subcommand(s)"]

def text (page : HelpPage) : String := String.join (page.lines.map (· ++ "\n"))

/-- The page for the names of commands that help is asked for; no command has commands of its own. -/
def ofNames? : List String → Option HelpPage
  | [] => some .program
  | ["check"] => some .check
  | ["help"] => some .help
  | _ => none

end HelpPage

end TagLint.CommandLine

import TagLint.CommandLine.Help
import TagLint.Log
import TagLint.Path

/-!
# Options — what the arguments of the program ask for

The program has one command, `check`.  The flags for verbosity may stand before or after the name of the command;
those after it count.  Arguments after `--` are no options.
-/

namespace TagLint.CommandLine

/-- Flags of one level of the command line. -/
structure Flags where
  quiet : Bool := false
  /-- How often detail was asked for. -/
  verbose : Nat := 0
  deriving DecidableEq, Repr

/-- What a check is about. -/
structure CheckOptions where
  source : Path
  events : Path
  /-- Rules in place of rule files. -/
  config : Option Path
  deriving DecidableEq, Repr

/-- The options of a run. -/
structure Invocation where
  check : CheckOptions
  flags : Flags
  deriving DecidableEq, Repr

/-- Why nothing is run. -/
inductive Stop
  | help (page : HelpPage)
  | version
  /-- The arguments make no sense. -/
  | usage
  deriving DecidableEq, Repr

namespace Flags

/-- A flag may not be repeated, except the one for more detail.  The version is known to the top level alone. -/
def takeLetter (top : Bool) (f : Flags) (letter : Char) : Except Stop Flags :=
  match letter with
  | 'q' => if f.quiet then .error .usage else .ok { f with quiet := true }
  | 'v' => .ok { f with verbose := f.verbose + 1 }
  | 'h' => .error (.help (if top then .program else .check))
  | 'V' => if top then .error .version else .error .usage
  | _ => .error .usage

/-- The letter of a flag by its long name. -/
def letterOf? (name : String) : Option Char :=
  match name with
  | "quiet" => some 'q'
  | "verbose" => some 'v'
  | "help" => some 'h'
  | "version" => some 'V'
  | _ => none

/-- Take an argument that is a long flag or some letters after a dash. -/
def take (top : Bool) (f : Flags) (arg : String) : Except Stop Flags :=
  match arg.toList with
  | '-' :: '-' :: name =>
    match letterOf? (String.ofList name) with
    | some letter => f.takeLetter top letter
    | none => .error .usage
  | '-' :: letters => letters.foldlM (takeLetter top) f
  | _ => .error .usage

/-- Less and more detail exclude each other on one level. -/
def isConsistent (f : Flags) : Bool := !(f.quiet && 0 < f.verbose)

/-- The flags of the program with those of its command. -/
def combine (outer inner : Flags) : Flags :=
  ⟨outer.quiet || inner.quiet, if 0 < inner.verbose then inner.verbose else outer.verbose⟩

/-- The least important level that is shown. -/
def level (f : Flags) : LogLevel :=
  if f.quiet then .error
  else
    match f.verbose with
    | 0 => .warn
    | 1 => .info
    | _ => .debug

end Flags

/-- An argument that is no value; a lone dash is one. -/
def isOption (arg : String) : Bool := arg.toList.head? = some '-' && arg ≠ "-"

/-! ## The command -/

/-- The arguments of a check read so far. -/
structure Draft where
  flags : Flags := {}
  source? : Option String := none
  events? : Option String := none
  config? : Option String := none

/-- The options that take a value. -/
inductive Slot
  | events
  | config

namespace Draft

/-- Fill a slot, which may be done once. -/
def put (d : Draft) (slot : Slot) (value : String) : Except Stop Draft :=
  match slot, d.events?, d.config? with
  | .events, none, _ => .ok { d with events? := some value }
  | .config, _, none => .ok { d with config? := some value }
  | _, _, _ => .error .usage

def putSource (d : Draft) (value : String) : Except Stop Draft :=
  match d.source? with
  | none => .ok { d with source? := some value }
  | some _ => .error .usage

/-- The slot that an argument names, with the value after an equals sign. -/
def slotOf? (arg : String) : Option (Slot × Option String) :=
  let cs := arg.toList
  let name := String.ofList (cs.takeWhile (· ≠ '='))
  let value? := match cs.dropWhile (· ≠ '=') with
    | [] => none
    | _ :: value => some (String.ofList value)
  if name = "--events" then some (.events, value?)
  else if name = "--config" then some (.config, value?)
  else none

/-- Read the arguments of a check; `plain`: all arguments are values. -/
def readArgs (plain : Bool) (d : Draft) : List String → Except Stop Draft
  | [] => .ok d
  | arg :: args =>
    if plain ∨ !isOption arg then do readArgs plain (← d.putSource arg) args
    else if arg = "--" then readArgs true d args
    else
      match slotOf? arg, args with
      | some (slot, some value), args => do readArgs false (← d.put slot value) args
      | some (slot, none), value :: args =>
        if isOption value then .error .usage else do readArgs false (← d.put slot value) args
      | some (_, none), [] => .error .usage
      | none, args => do readArgs false { d with flags := ← d.flags.take false arg } args

/-- The options of a check, if they are complete. -/
def finish (d : Draft) : Except Stop CheckOptions :=
  match d.source?, d.events? with
  | some source, some events => .ok ⟨⟨source⟩, ⟨events⟩, d.config?.map Path.mk⟩
  | _, _ => .error .usage

end Draft

/-! ## The program -/

/-- The flags before the name of the command, and the arguments after it. -/
def readCommand (f : Flags) : List String → Except Stop (Flags × List String)
  | [] => .error .usage
  | arg :: args =>
    if arg = "check" then .ok (f, args)
    else if arg = "help" then .error (((HelpPage.ofNames? args).map Stop.help).getD .usage)
    else if isOption arg then do readCommand (← f.take true arg) args
    else .error .usage

/-- What the arguments of the program ask for. -/
def parse (args : List String) : Except Stop Invocation := do
  let (flags, args) ← readCommand {} args
  let draft ← Draft.readArgs false {} args
  let check ← draft.finish
  if flags.isConsistent ∧ draft.flags.isConsistent then return ⟨check, flags.combine draft.flags⟩
  else throw .usage

end TagLint.CommandLine

/-!
# Logs — what an operation reports while it runs

A `Logged` value carries the messages of the operation that made it, in order.  `forwarded` is the part of a log
that an editor is sent.
-/

namespace TagLint

/-- How much a message matters, the most important level first. -/
inductive LogLevel
  | error
  | warn
  | info
  | debug
  | trace
  deriving DecidableEq, Repr

/-- The place of a level: messages up to some rank are shown. -/
def LogLevel.rank : LogLevel → Nat
  | .error => 0
  | .warn => 1
  | .info => 2
  | .debug => 3
  | .trace => 4

structure LogEntry where
  level : LogLevel
  message : String
  deriving DecidableEq, Repr

/-- A value with the messages of the operation that made it. -/
structure Logged (α : Type) where
  value : α
  log : List LogEntry

namespace Logged

variable {α β : Type}

/-- Report a message. -/
def say (level : LogLevel) (message : String) : Logged Unit := ⟨(), [⟨level, message⟩]⟩

instance : Monad Logged where
  pure a := ⟨a, []⟩
  bind x f := ⟨(f x.value).value, x.log ++ (f x.value).log⟩

@[simp] theorem value_pure (a : α) : (pure a : Logged α).value = a := rfl

@[simp] theorem log_pure (a : α) : (pure a : Logged α).log = [] := rfl

@[simp] theorem value_bind (x : Logged α) (f : α → Logged β) : (x >>= f).value = (f x.value).value := rfl

@[simp] theorem log_bind (x : Logged α) (f : α → Logged β) :
    (x >>= f).log = x.log ++ (f x.value).log := rfl

end Logged

/-! ## Forwarding to an editor -/

/-- How an editor sorts the messages it is sent. -/
inductive MessageType
  | error
  | warning
  | info
  | log
  deriving DecidableEq, Repr

/-- The sort of message that a level becomes; traces stay here. -/
def LogLevel.messageType? : LogLevel → Option MessageType
  | .error => some .error
  | .warn => some .warning
  | .info => some .info
  | .debug => some .log
  | .trace => none

/-- What an editor is sent for an event, which may come without a message. -/
def LogLevel.forward? (level : LogLevel) (message? : Option String) : Option (MessageType × String) :=
  match level.messageType?, message? with
  | some sort, some message => some (sort, message)
  | _, _ => none

/-- What an editor is sent of a log. -/
def forwarded (log : List LogEntry) : List (MessageType × String) :=
  log.filterMap fun e => e.level.forward? (some e.message)

/-- The messages of a log that an editor is shown as errors. -/
def errorMessages (log : List LogEntry) : List String :=
  (forwarded log).filterMap fun m => if m.1 = .error then some m.2 else none

end TagLint

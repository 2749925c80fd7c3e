import Lox.Environment
import Lox.Trace

/-!
# Machines

A machine holds what a run changes: the environment, the number of operators that
have been applied, and what has been written. An action on a machine ends with a
result or with an interrupt, and the machine keeps its changes in both cases.

Calls nest while a program runs, and there is room for so many of them only. Each
execution of a statement or of the statements of a block, each evaluation, each test
of a condition and each logical operator is a call, and so is each of the calls that
a log entry needs. Calls that open none of these are not counted: reading a name,
applying an operator to its operands, printing.
-/
namespace Lox

/-- The state of a run. -/
structure Machine where
  environment : Environment
  /-- How many operators have been applied; numbers the NaNs that they make. -/
  serial : Nat
  /-- What has been written, the latest first. -/
  events : List Event
deriving DecidableEq, Repr

/-- The calls that may be open at once below the place where programs are run, and the calls that a
log entry needs for a moment. -/
structure Stack where
  limit : Nat
  /-- The calls that make the text of a value. -/
  inspect : Nat
  /-- The calls that write an entry. -/
  write : Nat
  /-- The calls that flush what has been written. -/
  flush : Nat
  /-- A program is run where there is room to open the scope of a statement and to log that. -/
  enough : max write flush + 3 ≤ limit
deriving DecidableEq, Repr

namespace Stack

/-- A thousand calls, four of which are open where a program is run. -/
def standard : Stack where
  limit := 996
  inspect := 3
  write := 2
  flush := 3
  enough := by decide

/-- The calls that an entry needs to be written. The text of a value is made before. -/
def toWrite (stack : Stack) (entry : Entry) : Nat :=
  if entry.showsValue then max stack.inspect stack.write else stack.write

end Stack

/-- What does not change during a run. -/
structure Settings where
  /-- The highest level of log entries that are written. -/
  verbosity : Nat
  /-- How often the condition of one loop may be tested. -/
  rounds : Nat
  stack : Stack
deriving DecidableEq, Repr

/-- Why an action ended without a result. -/
inductive Interrupt where
  | breakLoop
  | continueLoop
  | fault (fault : Fault)
  /-- There was no room for another call. -/
  | tooDeep
  /-- A loop has used up its rounds. -/
  | outOfRounds
deriving DecidableEq, Repr

namespace Machine

/-- A machine that has written nothing yet. -/
def start (environment : Environment) (serial : Nat) : Machine := ⟨environment, serial, []⟩

/-- Writes a line to the output. -/
def print (machine : Machine) (text : String) : Machine :=
  { machine with events := .printed text :: machine.events }

/-- Writes an entry to the log if the verbosity asks for it. -/
def log (verbosity : Nat) (entry : Entry) (machine : Machine) : Machine :=
  if entry.level ≤ verbosity then { machine with events := .logged entry :: machine.events }
  else machine

/-- Opens a scope. -/
def openScope (machine : Machine) : Machine :=
  { machine with environment := machine.environment.push }

/-- Closes the scopes inside the one that has `depth` scopes around it. -/
def closeTo (depth : Nat) (machine : Machine) : Machine :=
  { machine with environment := machine.environment.closeTo depth }

/-- Goes back to the scope that has `depth` scopes around it, out of the one inside it. -/
def leaveScope (verbosity depth : Nat) (machine : Machine) : Machine :=
  (machine.closeTo depth).log verbosity (.leaveScope (depth + 1))

end Machine

/-- An action on a machine. -/
abbrev Exec := EStateM Interrupt Machine

namespace Exec

variable {α : Type}

/-- What an action on a machine ends with, and the machine it leaves. -/
def runOn (machine : Machine) (action : Exec α) : Except Interrupt α × Machine :=
  match action machine with
  | .ok a machine => (.ok a, machine)
  | .error interrupt machine => (.error interrupt, machine)

/-- Opens a call where there is room for some, and passes on the room that is left in it. -/
def call (room : Nat) (action : Nat → Exec α) : Exec α :=
  match room with
  | 0 => throw .tooDeep
  | room + 1 => action room

/-- Goes on only where there is room for so many calls. -/
def demand (room calls : Nat) : Exec Unit := if calls ≤ room then pure () else throw .tooDeep

/-- Writes an entry to the log if the verbosity asks for it, and flushes the log. -/
def log (settings : Settings) (room : Nat) (entry : Entry) : Exec Unit := do
  if entry.level ≤ settings.verbosity then
    demand room (settings.stack.toWrite entry)
    modify (Machine.log settings.verbosity entry)
    demand room settings.stack.flush

/-- Turns a fault into an interrupt. -/
def ofExcept : Except Fault α → Exec α
  | .ok a => pure a
  | .error fault => throw (.fault fault)

/-- Applies an operator, which takes the next serial number as the origin of a NaN. -/
def apply (operator : Origin → Except Fault α) : Exec α := do
  let machine ← get
  set { machine with serial := machine.serial + 1 }
  ofExcept (operator (.computed machine.serial))

/-- Opens a scope. If there is no room to log that, the scope is open all the same. -/
def enterScope (settings : Settings) (room : Nat) : Exec Unit := do
  modify Machine.openScope
  log settings room (.enterScope (← get).environment.depth)

/-- Runs an action in the scope that has been opened, and goes back to the scope with `depth` scopes
around it however the action ends. -/
def leaving (settings : Settings) (depth : Nat) (action : Exec Unit) : Exec Unit := fun machine =>
  match action machine with
  | .ok a machine => .ok a (machine.leaveScope settings.verbosity depth)
  | .error interrupt machine => .error interrupt (machine.leaveScope settings.verbosity depth)

/-- Runs an action in a scope of its own. -/
def inScope (settings : Settings) (room : Nat) (action : Exec Unit) : Exec Unit := do
  let depth := (← get).environment.depth
  enterScope settings room
  leaving settings depth action

/-- Runs the body of a loop once and tells whether the loop goes on. -/
def round (body : Exec Unit) : Exec Bool := fun machine =>
  match body machine with
  | .ok _ machine | .error .continueLoop machine => .ok true machine
  | .error .breakLoop machine => .ok false machine
  | .error interrupt machine => .error interrupt machine

/-- Repeats a body and a step while a condition holds, testing it at most the given number of
times. -/
def loop (condition : Exec Bool) (body step : Exec Unit) : Nat → Exec Unit
  | 0 => throw .outOfRounds
  | rounds + 1 => do
    if ← condition then
      if ← round body then
        step
        loop condition body step rounds

end Exec

end Lox

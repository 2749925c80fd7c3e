import Lox.TokenStream
import Lox.Rule.Statement
import Lox.Syntax.Printer
import Lox.Execution
import Lox.Output

/-!
# Sessions

A session runs one source text after another over the same global scope. A source
with a static fault is reported and not executed. The flags tell about the last run
only. Log entries go to a file while one is open, and otherwise to the output.
-/
namespace Lox

/-- The state of the log file. It is made with the session or never. -/
inductive LogFile where
  | absent | opened | closed
deriving DecidableEq, Repr

/-- What is kept from one run to the next. -/
structure Session where
  environment : Environment
  serial : Nat
  flags : Flags
  verbosity : Nat
  /-- Programs are shown in prefix notation instead of being executed. -/
  showTree : Bool
  logFile : LogFile
  /-- The room that the runs of the session have. -/
  stack : Stack
deriving DecidableEq, Repr

/-- How a run ended. -/
inductive Verdict where
  /-- Nothing was reported. -/
  | accepted
  /-- Something was reported. -/
  | rejected
  /-- Execution was cut off. -/
  | cutOff (ending : Ending)
deriving DecidableEq, Repr

/-- What a run leaves behind. -/
structure RunResult where
  verdict : Verdict
  session : Session
  output : Output
deriving DecidableEq, Repr

namespace Session

/-- A new session on a stack. A log file is made if any entries may be written. -/
def newOn (stack : Stack) (verbosity : Nat) (showTree : Bool) : Session :=
  { environment := .empty
    serial := 0
    flags := .clear
    verbosity
    showTree
    logFile := if verbosity = 0 then .absent else .opened
    stack }

/-- A new session. -/
def new (verbosity : Nat) (showTree : Bool) : Session := newOn .standard verbosity showTree

/-- What the session settles about its runs. -/
def settings (session : Session) (rounds : Nat) : Settings :=
  ⟨session.verbosity, rounds, session.stack⟩

/-- Closes the log file if it is open. -/
def close (session : Session) : Session :=
  { session with logFile := if session.logFile = .opened then .closed else session.logFile }

/-- Forgets what has been reported. -/
def reset (session : Session) : Session := { session with flags := .clear }

/-- Ends a run by reports on the error stream, after what has been written before. -/
def reject (session : Session) (before : Output) (reports : List Diagnostic) : RunResult :=
  { verdict := .rejected
    session := { session with flags := session.flags.noteAll reports }
    output := before ++ Output.report (String.join (reports.map Diagnostic.text)) }

/-- Shows a program. Nothing is shown if there is no room for the calls that this takes. -/
def showProgram (session : Session) (program : List Stmt) : RunResult :=
  if session.stack.limit < Stmt.heightAll program then
    session.reject .empty [.runtime Ending.tooDeepMessage]
  else
    let text := Stmt.renderProgram program
    { verdict := .accepted
      session
      output := Output.print (if text.isEmpty then "" else text ++ "\n") }

/-- Executes a program. -/
def execute (rounds : Nat) (session : Session) (program : List Stmt) : RunResult :=
  let start := Machine.start session.environment session.serial
  let (ending, machine) := start.interpret (session.settings rounds) program
  let session := { session with environment := machine.environment, serial := machine.serial }
  let written := Output.ofEvents (session.logFile = .opened) machine.events.reverse
  match ending.report? with
  | some report => session.reject written [report]
  | none =>
    { verdict := if ending = .completed then .accepted else .cutOff ending
      session
      output := written }

/-- Runs a source text. The condition of one loop is tested at most `rounds` times. -/
def run (rounds : Nat) (session : Session) (source : String) : RunResult :=
  let session := session.reset
  let stream := TokenStream.ofSource source
  let reading := Reading.ofTokens stream.body stream.close
  let reports := stream.reports ++ reading.reports
  if reports ≠ [] then session.reject .empty reports
  else if session.showTree then session.showProgram reading.program
  else session.execute rounds reading.program

/-- Runs the statements of a source that can be read, whatever is reported about the others. -/
def runReadable (rounds : Nat) (session : Session) (source : String) : RunResult :=
  let stream := TokenStream.ofSource source
  let reading := Reading.ofTokens stream.body stream.close
  let noted := session.reject .empty (stream.reports ++ reading.reports)
  let result := noted.session.execute rounds reading.program
  { result with output := noted.output ++ result.output }

end Session

/-- What the evaluation of a source text leaves behind: a value or an interrupt, or nothing if the
source is no expression. -/
structure Evaluation where
  value? : Option (Except Interrupt Value)
  session : Session
  output : Output

/-- Evaluates a source text as one expression. An interrupt is returned and not reported. -/
def Session.evaluate (rounds : Nat) (session : Session) (source : String) : Evaluation :=
  let stream := TokenStream.ofSource source
  let step := Expr.parse stream.body stream.close
  let reports := stream.reports ++ step.reports.map SyntaxFault.diagnostic
  let { session, output, .. } := session.reject .empty reports
  match step.outcome with
  | .error _ => ⟨none, session, output⟩
  | .ok e =>
    let start := Machine.start session.environment session.serial
    let (value, machine) :=
      Exec.runOn start (e.evaluate (session.settings rounds) session.stack.limit)
    let written := Output.ofEvents (session.logFile = .opened) machine.events.reverse
    { value? := some value
      session := { session with environment := machine.environment, serial := machine.serial }
      output := output ++ written }

end Lox

import Lox.Diagnostic
import Lox.Machine
import Lox.Operator
import Lox.Syntax

/-!
# Execution

Expressions evaluate to values and statements are executed for their effects on a
machine. Conditions must be booleans. A block runs in a scope of its own, and
so does the body of a branch and each round of a loop. Functions, classes and
`return` can be read but not executed. Each action is given the room that is left
for calls, and opens calls as long as there is some.
-/
namespace Lox

/-- The value of an expression. -/
def Expr.evaluate (settings : Settings) (room : Nat) (e : Expr) : Exec Value :=
  Exec.call room fun room =>
    match e with
    | .literal value => return value
    | .grouping inner => inner.evaluate settings room
    | .ident name => do Exec.ofExcept ((← get).environment.get name.lexeme)
    | .assign name value => do
      let value ← value.evaluate settings room
      let environment ← Exec.ofExcept ((← get).environment.assign name.lexeme value)
      modify ({ · with environment })
      Exec.log settings room (.assign name.lexeme value)
      return value
    | .unary op right => do
      let right ← right.evaluate settings room
      Exec.apply (Operator.unary · op right)
    | .binary left op right => do
      let left ← left.evaluate settings room
      let right ← right.evaluate settings room
      Exec.apply (Operator.binary · op left right)
    -- a logical operator has a call of its own
    | .logical left op right => Exec.call room fun room => do
      let first ← Exec.ofExcept (Operator.truth op (← left.evaluate settings room))
      if Operator.goesOn op first then
        let second ← Exec.ofExcept (Operator.truth op (← right.evaluate settings room))
        return .boolean second
      else return .boolean first
termination_by structural e

namespace Exec

/-- The truth of a condition. -/
def condition (settings : Settings) (room : Nat) (e : Expr) : Exec Bool :=
  call room fun room => do
    let value ← e.evaluate settings room
    log settings room (.condition value)
    match value with
    | .boolean b => return b
    | _ => throw (.fault (.condition value.type))

/-- Executes a form: logs its name and then does what it asks for. -/
def form (settings : Settings) (room : Nat) (name : String) (action : Nat → Exec Unit) :
    Exec Unit :=
  call room fun room => do
    log settings room (.execute name)
    action room

/-- Executes a block, whose statements `action` executes, in a scope of its own. -/
def block (settings : Settings) (room : Nat) (action : Nat → Exec Unit) : Exec Unit :=
  form settings room "Block" fun room =>
    call room fun room => inScope settings room (action room)

/-- Evaluates an expression for its effects, if there is one. -/
def optional (settings : Settings) (room : Nat) : Option Expr → Exec Unit
  | none => return
  | some e => discard (e.evaluate settings room)

end Exec

mutual

/-- Executes a statement. -/
def Stmt.execute (settings : Settings) (room : Nat) : Stmt → Exec Unit
  | .expression e => Exec.form settings room "Expression" fun room =>
    discard (e.evaluate settings room)
  | .print e => Exec.form settings room "Print" fun room => do
    let value ← e.evaluate settings room
    modify (·.print value.text)
  | .varDecl name initial => Exec.form settings room "Var" fun room => do
    let value ← match initial with
      | none => pure .nil
      | some e => e.evaluate settings room
    modify fun machine =>
      { machine with environment := machine.environment.define name.lexeme value }
    Exec.log settings room (.define name.lexeme value)
  | .block body => Exec.block settings room fun room => Stmt.executeAll settings room body
  | .ifThen condition body => Exec.form settings room "If" fun room => do
    let taken ← Exec.condition settings room condition
    Exec.log settings room (.branch taken)
    if taken then Exec.block settings room fun room => Stmt.executeAll settings room body
  | .ifElse condition body alternative => Exec.form settings room "If" fun room => do
    let taken ← Exec.condition settings room condition
    Exec.log settings room (.branch taken)
    if taken then Exec.block settings room fun room => Stmt.executeAll settings room body
    else Exec.block settings room fun room => Stmt.executeAll settings room alternative
  | .whileLoop condition body step => Exec.form settings room "While" fun room =>
    Exec.loop (Exec.condition settings room condition)
      (Exec.block settings room fun room => Stmt.executeAll settings room body)
      (Exec.optional settings room step) settings.rounds
  | .functionDecl function => Exec.form settings room "Function" fun _ =>
    throw (.fault (.functionDecl function.name))
  | .returnValue keyword _ => Exec.form settings room "Return" fun _ =>
    throw (.fault (.returnValue keyword))
  | .classDecl name _ _ => Exec.form settings room "Class" fun _ =>
    throw (.fault (.classDecl name))
  | .breakLoop _ => Exec.form settings room "Break" fun _ => throw .breakLoop
  | .continueLoop _ => Exec.form settings room "Continue" fun _ => throw .continueLoop
  | .empty => Exec.form settings room "Empty" fun _ => return
  | .error .. => Exec.form settings room "Error" fun _ => return

/-- Executes statements in order. -/
def Stmt.executeAll (settings : Settings) (room : Nat) : List Stmt → Exec Unit
  | [] => return
  | stmt :: rest => do
    stmt.execute settings room
    Stmt.executeAll settings room rest

end

/-- How the execution of a program ended. -/
inductive Ending where
  | completed
  | fault (cause : Fault)
  /-- There was no room for another call. -/
  | tooDeep
  /-- A `break` or `continue` met no loop. -/
  | stray (isBreak : Bool)
  | outOfRounds
deriving DecidableEq, Repr

namespace Ending

/-- The message about a program that nests too deep to be executed or shown. -/
def tooDeepMessage : String := "Maximum recursion depth exceeded."

/-- What is reported about an ending. -/
def report? : Ending → Option Diagnostic
  | fault cause => some (.runtime cause.message)
  | tooDeep => some (.runtime tooDeepMessage)
  | completed | stray _ | outOfRounds => none

end Ending

/-- Executes a program. A fault is also written to the log, where the program is run and there is
room enough. -/
def Machine.interpret (settings : Settings) (program : List Stmt) (machine : Machine) :
    Ending × Machine :=
  match Stmt.executeAll settings settings.stack.limit program machine with
  | .ok _ machine => (.completed, machine)
  | .error (.fault fault) machine =>
    (.fault fault, machine.log settings.verbosity (.fault fault.message))
  | .error .tooDeep machine => (.tooDeep, machine)
  | .error .breakLoop machine => (.stray true, machine)
  | .error .continueLoop machine => (.stray false, machine)
  | .error .outOfRounds machine => (.outOfRounds, machine)

end Lox

import Lox.Rule.Expression

/-!
# Rules for statements

Every statement is read with recovery: if it cannot be read, an error statement
takes its place and reading resumes at the next boundary. A `for` loop is read as a
loop with a step, in a block of its own if it declares or sets something first.
-/
namespace Lox.Rule

/-- Reads a loop body: one more loop is open in it. -/
def inLoop {α : Type} (rule : Rule α) : Rule α := do
  update fun c => { c with loops := c.loops + 1 }
  let a ← rule
  update fun c => { c with loops := c.loops - 1 }
  return a

/-- Reads a function body: loops around the function are not open in it. -/
def outsideLoops {α : Type} (rule : Rule α) : Rule α := do
  let outer ← loops
  update fun c => { c with loops := 0 }
  let a ← rule
  update fun c => { c with loops := outer }
  return a

/-- A block whose opening brace has to be read first. -/
def braced (block : Rule (List Stmt)) (what : String) : Rule (List Stmt) := do
  let _ ← expect .leftBrace what
  block

/-- An expression, unless a token of class `stop` comes at once. -/
def optional (expression : Rule Expr) (stop : Kind) : Rule (Option Expr) := do
  if (← peek).kind = stop then return none else return some (← expression)

/-- The parameters of a function, of which `count` have been read; at most one for each element
of the second argument and one more. Each one after the first 255 is reported. -/
def parametersFrom (count : Nat) : List Token → Rule (List Token)
  | [] => return [← expect .identifier "parameter name"]
  | _ :: more => do
    if 255 ≤ count then report (← peek) .tooManyParameters
    let name ← expect .identifier "parameter name"
    match ← accept (· == .comma) with
    | none => return [name]
    | some _ => return name :: (← parametersFrom (count + 1) more)

/-- The parameters of a function, up to the closing parenthesis. -/
def parameters : Rule (List Token) := do
  if (← peek).kind = .rightParen then return [] else parametersFrom 0 (← ahead)

/-- A function or method, by the word for it in messages, from its name on. -/
def function (block : Rule (List Stmt)) (word : String) : Rule Function := do
  let name ← expect .identifier (word ++ " name")
  let _ ← expect .leftParen ("'(' after " ++ word ++ " name")
  let params ← parameters
  let _ ← expect .rightParen "')' after parameters"
  let _ ← expect .leftBrace ("'\x7b' before " ++ word ++ " body")
  let body ← outsideLoops block
  return .mk name params body

/-- The superclass of a class, if `<` names one. -/
def superclass : Rule (Option Token) := do
  match ← accept (· == .less) with
  | none => return none
  | some _ => return some (← expect .identifier "superclass name")

/-- A class behind its first word. -/
def classDecl (block : Rule (List Stmt)) : Rule Stmt := do
  let name ← expect .identifier "class name"
  let parent ← superclass
  let _ ← expect .leftBrace "'\x7b' before class body"
  let methods ← many .rightBrace (function block "method")
  let _ ← expect .rightBrace "'\x7d' after class body"
  return .classDecl name parent methods

/-- A variable declaration behind its first word. -/
def varDecl (expression : Rule Expr) : Rule Stmt := do
  let name ← expect .identifier "variable name"
  let initial ← match ← accept (· == .equal) with
    | none => pure none
    | some _ => some <$> expression
  let _ ← expect .semicolon "';' after variable declaration"
  return .varDecl name initial

/-- An expression as a statement. -/
def expressionStmt (expression : Rule Expr) : Rule Stmt := do
  let e ← expression
  let _ ← expect .semicolon "';' after expression"
  return .expression e

/-- A `print` statement behind its first word. -/
def printStmt (expression : Rule Expr) : Rule Stmt := do
  let e ← expression
  let _ ← expect .semicolon "';' after value"
  return .print e

/-- An `if` statement behind its first word. -/
def ifStmt (expression : Rule Expr) (block : Rule (List Stmt)) : Rule Stmt := do
  let _ ← expect .leftParen "'(' after 'if'"
  let condition ← expression
  let _ ← expect .rightParen "')' after if condition"
  let body ← braced block "'\x7b' before if body"
  match ← accept (· == .kwElse) with
  | none => return .ifThen condition body
  | some _ => return .ifElse condition body (← braced block "'\x7b' after 'else'")

/-- A `while` loop behind its first word. -/
def whileStmt (expression : Rule Expr) (block : Rule (List Stmt)) : Rule Stmt := do
  let _ ← expect .leftParen "'(' after 'while'"
  let condition ← expression
  let _ ← expect .rightParen "')' after condition"
  let body ← inLoop (braced block "'\x7b' before while body")
  return .whileLoop condition body none

/-- What comes first in the parentheses of a `for` loop. -/
def forInitial (expression : Rule Expr) : Rule (Option Stmt) := do
  match (← peek).kind with
  | .semicolon => advance; return none
  | .kwVar => advance; return some (← varDecl expression)
  | _ => return some (← expressionStmt expression)

/-- The loop that a `for` statement stands for. A missing condition is true. -/
def forLoop (initial : Option Stmt) (condition step : Option Expr) (body : List Stmt) : Stmt :=
  let loop := .whileLoop (condition.getD (.literal (.boolean true))) body step
  match initial with
  | none => loop
  | some stmt => .block [stmt, loop]

/-- A `for` loop behind its first word. -/
def forStmt (expression : Rule Expr) (block : Rule (List Stmt)) : Rule Stmt := do
  let _ ← expect .leftParen "'(' after 'for'"
  let initial ← forInitial expression
  let condition ← optional expression .semicolon
  let _ ← expect .semicolon "';' after loop condition"
  let step ← optional expression .rightParen
  let _ ← expect .rightParen "')' after for clauses"
  let body ← inLoop (braced block "'\x7b' before for body")
  return forLoop initial condition step body

/-- A `return` statement behind its first word. -/
def returnStmt (expression : Rule Expr) (keyword : Token) : Rule Stmt := do
  let value ← optional expression .semicolon
  let _ ← expect .semicolon "';' after return value"
  return .returnValue keyword value

/-- A `break` or `continue` statement behind its word. It needs an open loop. -/
def jumpStmt (keyword : Token) (word : String) (stmt : Stmt) : Rule Stmt := do
  if (← loops) = 0 then fail keyword (.outsideLoop word)
  else
    let _ ← expect .semicolon ("';' after '" ++ word ++ "'")
    return stmt

/-- A statement that declares nothing. -/
def statement (expression : Rule Expr) (block : Rule (List Stmt)) : Rule Stmt := do
  let token ← peek
  match token.kind with
  | .kwPrint => advance; printStmt expression
  | .kwIf => advance; ifStmt expression block
  | .kwWhile => advance; whileStmt expression block
  | .kwFor => advance; forStmt expression block
  | .kwReturn => advance; returnStmt expression token
  | .kwBreak => advance; jumpStmt token "break" (.breakLoop token)
  | .kwContinue => advance; jumpStmt token "continue" (.continueLoop token)
  | .leftBrace => advance; return .block (← block)
  | .semicolon => advance; return .empty
  | _ => expressionStmt expression

/-- A declaration or another statement, without recovery. -/
def declaration (expression : Rule Expr) (block : Rule (List Stmt)) : Rule Stmt := do
  match (← peek).kind with
  | .kwClass => advance; classDecl block
  | .kwFun => advance; return .functionDecl (← function block "function")
  | .kwVar => advance; varDecl expression
  | _ => statement expression block

/-- A declaration or another statement, with an error statement in place of one that cannot be
read. -/
def recovered (expression : Rule Expr) (block : Rule (List Stmt)) : Rule Stmt :=
  recover (declaration expression block) fun fault => .error fault.token fault.error.message

/-- A block behind its opening brace, when `room` more levels of nesting may be opened. -/
def block : Nat → Rule (List Stmt)
  | 0 => tooDeep
  | room + 1 => nested do
    let body ← many .rightBrace (recovered (expression room) (block room))
    let _ ← expect .rightBrace "'\x7d' after block"
    return body

/-- A program: statements up to the end. -/
def program : Rule (List Stmt) := many .eof (recovered (expression maxDepth) (block maxDepth))

end Lox.Rule

namespace Lox

/-- A program as it has been read, with the faults reported and the place where reading ended. -/
structure Reading where
  program : List Stmt
  faults : List SyntaxFault
  finish : Cursor

/-- Reads tokens as a program. -/
def Reading.ofTokens (body : List Token) (close : Token) : Reading :=
  let step := Rule.program (.start body close)
  { program := match step.outcome with
      | .ok program => program
      | .error _ => []
    faults := step.reports
    finish := step.cursor }

/-- The reports of the faults, in the order in which they were found. -/
def Reading.reports (reading : Reading) : List Diagnostic :=
  reading.faults.map SyntaxFault.diagnostic

end Lox

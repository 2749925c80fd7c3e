import Lox.Rule.Statement

/-!
# Reading by index

The rules once more, for tokens in a list that is read by index, the closing token
included. The index and the counters are integers and nothing keeps them in their
range, but the reading is watched. It halts when a token is asked for that is not in
the list, when a counter leaves its range, when a statement passes no token or does not
close what it opens, and when a loop or the nesting of rules outlasts its bound.
-/
namespace Lox

/-- A place in a list of tokens, and how much is open there. -/
structure Place where
  /-- The index of the next token. -/
  current : Int
  depth : Int
  loops : Int
deriving DecidableEq, Repr

/-- Why a watched reading halts. -/
inductive Halt where
  /-- There is no token with this index. -/
  | access (index : Int)
  /-- The nesting or the number of loops is out of range. -/
  | counter (depth loops : Int)
  /-- A statement passed no token or left the counters changed. -/
  | stalled (place : Place)
  /-- A loop or the nesting of rules has used up its bound. -/
  | endless
deriving DecidableEq, Repr

/-- What an indexed rule leaves behind if it is not halted. -/
structure IndexedStep (α : Type) where
  outcome : Except SyntaxFault α
  place : Place
  reports : List SyntaxFault

/-- A rule that reads tokens by index. -/
def Indexed (α : Type) : Type := List Token → Place → Except Halt (IndexedStep α)

namespace Indexed

variable {α β : Type}

instance : Monad Indexed where
  pure a _ place := .ok ⟨.ok a, place, []⟩
  bind rule next tokens place :=
    match rule tokens place with
    | .error halt => .error halt
    | .ok ⟨.error fault, after, reports⟩ => .ok ⟨.error fault, after, reports⟩
    | .ok ⟨.ok a, after, reports⟩ =>
      match next a tokens after with
      | .error halt => .error halt
      | .ok step => .ok { step with reports := reports ++ step.reports }

/-! ### Basic rules -/

/-- Halts the reading. -/
def halt (why : Halt) : Indexed α := fun _ _ => .error why

/-- The place at hand. -/
def place : Indexed Place := fun _ place => .ok ⟨.ok place, place, []⟩

/-- Goes to another index. -/
def goTo (current : Int) : Indexed Unit := fun _ place => .ok ⟨.ok (), { place with current }, []⟩

/-- Sets the counters. The nesting may be one level deeper than is allowed, since only there it is
reported. -/
def setCounters (depth loops : Int) : Indexed Unit := fun _ place =>
  if 0 ≤ depth ∧ depth ≤ Rule.maxDepth + 1 ∧ 0 ≤ loops then
    .ok ⟨.ok (), { place with depth, loops }, []⟩
  else .error (.counter depth loops)

/-- The token with an index. -/
def token (index : Int) : Indexed Token := fun tokens place =>
  match tokens[index.toNat]? with
  | some token => if 0 ≤ index then .ok ⟨.ok token, place, []⟩ else .error (.access index)
  | none => .error (.access index)

/-- Reports a fault and goes on. -/
def report (token : Token) (error : SyntaxError) : Indexed Unit :=
  fun _ place => .ok ⟨.ok (), place, [⟨token, error⟩]⟩

/-- Reports a fault and fails with it. -/
def fail (token : Token) (error : SyntaxError) : Indexed α :=
  fun _ place => .ok ⟨.error ⟨token, error⟩, place, [⟨token, error⟩]⟩

/-- Makes a failure a result. -/
def caught (rule : Indexed α) : Indexed (Except SyntaxFault α) := fun tokens place =>
  match rule tokens place with
  | .error halt => .error halt
  | .ok ⟨outcome, after, reports⟩ => .ok ⟨.ok outcome, after, reports⟩

/-- Ends as something has ended before. -/
def ended (outcome : Except SyntaxFault α) : Indexed α := fun _ place => .ok ⟨outcome, place, []⟩

/-- The next token. -/
def peek : Indexed Token := do token (← place).current

/-- The token before the next one. -/
def previous : Indexed Token := do token ((← place).current - 1)

/-- Passes the next token unless it is the closing one, and looks back at the last one passed. -/
def advance : Indexed Token := do
  if (← peek).kind ≠ .eof then goTo ((← place).current + 1)
  previous

/-- Passes the next token if it is of a class that is wanted. -/
def accept (wanted : Kind → Bool) : Indexed (Option Token) := do
  if wanted (← peek).kind then return some (← advance) else return none

/-- Passes a token of the given class, or fails at the next token. -/
def expect (kind : Kind) (what : String) : Indexed Token := do
  let token ← peek
  if token.kind = kind then advance else fail token (.expected what)

/-- Opens a level of nesting, and fails if that is one too many. -/
def enter : Indexed Unit := do
  let before ← place
  setCounters (before.depth + 1) before.loops
  if Rule.maxDepth < before.depth + 1 then fail (← peek) .tooDeep

/-- Closes a level of nesting. -/
def leave : Indexed Unit := do
  let before ← place
  setCounters (before.depth - 1) before.loops

/-- Reads something one level deeper. -/
def nested (rule : Indexed α) : Indexed α := do
  enter
  let a ← rule
  leave
  return a

/-- Reads something with another number of loops open, which is changed back however that ends. -/
def withLoops (loops : Int) (back : Int → Int) (rule : Indexed α) : Indexed α := do
  setCounters (← place).depth loops
  let outcome ← caught rule
  let after ← place
  setCounters after.depth (back after.loops)
  ended outcome

/-- Reads a loop body: one more loop is open in it. -/
def inLoop (rule : Indexed α) : Indexed α := do withLoops ((← place).loops + 1) (· - 1) rule

/-- Reads a function body: loops around the function are not open in it. -/
def outsideLoops (rule : Indexed α) : Indexed α := do
  let outer := (← place).loops
  withLoops 0 (fun _ => outer) rule

/-- Passes tokens up to and with a semicolon, or up to a word that starts a statement. -/
def resyncFrom : Nat → Indexed Unit
  | 0 => halt .endless
  | rounds + 1 => do
    if (← peek).kind = .eof then return
    else if (← previous).kind = .semicolon then return
    else if (← peek).kind.startsStatement then return
    else
      let _ ← advance
      resyncFrom rounds

/-- Passes the tokens behind a fault. -/
def resync (rounds : Nat) : Indexed Unit := do
  let _ ← advance
  resyncFrom rounds

/-- Turns a failure into a result and resumes behind it, with the counters as they were before. -/
def recover (rounds : Nat) (rule : Indexed α) (instead : SyntaxFault → α) : Indexed α := do
  let before ← place
  match ← caught rule with
  | .ok a => return a
  | .error fault =>
    setCounters before.depth before.loops
    resync rounds
    return instead fault

/-- Halts if a rule passes no token or leaves the counters changed. -/
def advancing (rule : Indexed α) : Indexed α := do
  let before ← place
  let a ← rule
  let after ← place
  if before.current < after.current ∧ after.depth = before.depth ∧ after.loops = before.loops then
    return a
  else halt (.stalled after)

/-- Reads items until a token of class `stop` or the end. -/
def many (stop : Kind) (item : Indexed α) : Nat → Indexed (List α)
  | 0 => halt .endless
  | rounds + 1 => do
    let kind := (← peek).kind
    if kind = stop ∨ kind = .eof then return []
    else return (← item) :: (← many stop item rounds)

/-! ### Rules for expressions -/

/-- Reads further operators of a level with their right operands behind `left`. -/
def chainFrom (level : Rule.Level) (operand : Indexed Expr) (left : Expr) : Nat → Indexed Expr
  | 0 => halt .endless
  | rounds + 1 => do
    match ← accept level.wanted with
    | none => return left
    | some op => chainFrom level operand (level.make left op (← operand)) rounds

/-- Operands with operators of one level between them. -/
def chain (rounds : Nat) (level : Rule.Level) (operand : Indexed Expr) : Indexed Expr := do
  let left ← operand
  chainFrom level operand left rounds

/-- Operands with operators of all levels between them. -/
def operation (rounds : Nat) (operand : Indexed Expr) : Indexed Expr :=
  Rule.levels.foldr (chain rounds) operand

/-- An operation, or an assignment if `=` follows it. -/
def assignment (rounds : Nat) (operand expression : Indexed Expr) : Indexed Expr := do
  let target ← operation rounds operand
  match ← accept (· == .equal) with
  | none => return target
  | some equals =>
    let value ← expression
    match target with
    | .ident name => return .assign name value
    | _ =>
      report equals .assignmentTarget
      return target

/-- A literal, a name, or an expression in parentheses. -/
def primary (expression : Indexed Expr) : Indexed Expr := do
  let token ← peek
  match token.kind with
  | .kwFalse => let _ ← advance; return .literal (.boolean false)
  | .kwTrue => let _ ← advance; return .literal (.boolean true)
  | .kwNil => let _ ← advance; return .literal .nil
  | .number => return Rule.numberLiteral (← advance)
  | .string => return .literal (.string ((← advance).literal.getD ""))
  | .identifier => return .ident (← advance)
  | .leftParen =>
    let _ ← advance
    let inner ← expression
    let _ ← expect .rightParen "')' after expression"
    return .grouping inner
  | _ => fail token (.expected "expression")

/-- A prefix operator with its operand, which `deeper` reads, or a primary expression. -/
def prefixed (deeper expression : Indexed Expr) : Indexed Expr := do
  match ← accept fun kind => kind == .bang || kind == .minus with
  | some op => return .unary op (← deeper)
  | none => primary expression

mutual

/-- An expression. The last argument bounds how deeply rules are called in one another. -/
def expression (rounds : Nat) : Nat → Indexed Expr
  | 0 => halt .endless
  | calls + 1 => nested (assignment rounds (operand rounds calls) (expression rounds calls))

/-- An operand. -/
def operand (rounds : Nat) : Nat → Indexed Expr
  | 0 => halt .endless
  | calls + 1 => prefixed (nested (operand rounds calls)) (expression rounds calls)

end

/-! ### Rules for statements -/

/-- A block whose opening brace has to be read first. -/
def braced (block : Indexed (List Stmt)) (what : String) : Indexed (List Stmt) := do
  let _ ← expect .leftBrace what
  block

/-- An expression, unless a token of class `stop` comes at once. -/
def optional (expression : Indexed Expr) (stop : Kind) : Indexed (Option Expr) := do
  if (← peek).kind = stop then return none else return some (← expression)

/-- The parameters of a function, of which `count` have been read. -/
def parametersFrom (count : Nat) : Nat → Indexed (List Token)
  | 0 => halt .endless
  | rounds + 1 => do
    if 255 ≤ count then report (← peek) .tooManyParameters
    let name ← expect .identifier "parameter name"
    match ← accept (· == .comma) with
    | none => return [name]
    | some _ => return name :: (← parametersFrom (count + 1) rounds)

/-- The parameters of a function, up to the closing parenthesis. -/
def parameters (rounds : Nat) : Indexed (List Token) := do
  if (← peek).kind = .rightParen then return [] else parametersFrom 0 rounds

/-- A function or method, by the word for it in messages, from its name on. -/
def function (rounds : Nat) (block : Indexed (List Stmt)) (word : String) : Indexed Function := do
  let name ← expect .identifier (word ++ " name")
  let _ ← expect .leftParen ("'(' after " ++ word ++ " name")
  let params ← parameters rounds
  let _ ← expect .rightParen "')' after parameters"
  let _ ← expect .leftBrace ("'\x7b' before " ++ word ++ " body")
  let body ← outsideLoops block
  return .mk name params body

/-- The superclass of a class, if `<` names one. -/
def superclass : Indexed (Option Token) := do
  match ← accept (· == .less) with
  | none => return none
  | some _ => return some (← expect .identifier "superclass name")

/-- A class behind its first word. -/
def classDecl (rounds : Nat) (block : Indexed (List Stmt)) : Indexed Stmt := do
  let name ← expect .identifier "class name"
  let parent ← superclass
  let _ ← expect .leftBrace "'\x7b' before class body"
  let methods ← many .rightBrace (function rounds block "method") rounds
  let _ ← expect .rightBrace "'\x7d' after class body"
  return .classDecl name parent methods

/-- A variable declaration behind its first word. -/
def varDecl (expression : Indexed Expr) : Indexed Stmt := do
  let name ← expect .identifier "variable name"
  let initial ← match ← accept (· == .equal) with
    | none => pure none
    | some _ => some <$> expression
  let _ ← expect .semicolon "';' after variable declaration"
  return .varDecl name initial

/-- An expression as a statement. -/
def expressionStmt (expression : Indexed Expr) : Indexed Stmt := do
  let e ← expression
  let _ ← expect .semicolon "';' after expression"
  return .expression e

/-- A `print` statement behind its first word. -/
def printStmt (expression : Indexed Expr) : Indexed Stmt := do
  let e ← expression
  let _ ← expect .semicolon "';' after value"
  return .print e

/-- An `if` statement behind its first word. -/
def ifStmt (expression : Indexed Expr) (block : Indexed (List Stmt)) : Indexed Stmt := do
  let _ ← expect .leftParen "'(' after 'if'"
  let condition ← expression
  let _ ← expect .rightParen "')' after if condition"
  let body ← braced block "'\x7b' before if body"
  match ← accept (· == .kwElse) with
  | none => return .ifThen condition body
  | some _ => return .ifElse condition body (← braced block "'\x7b' after 'else'")

/-- A `while` loop behind its first word. -/
def whileStmt (expression : Indexed Expr) (block : Indexed (List Stmt)) : Indexed Stmt := do
  let _ ← expect .leftParen "'(' after 'while'"
  let condition ← expression
  let _ ← expect .rightParen "')' after condition"
  let body ← inLoop (braced block "'\x7b' before while body")
  return .whileLoop condition body none

/-- What comes first in the parentheses of a `for` loop. -/
def forInitial (expression : Indexed Expr) : Indexed (Option Stmt) := do
  match (← peek).kind with
  | .semicolon => let _ ← advance; return none
  | .kwVar => let _ ← advance; return some (← varDecl expression)
  | _ => return some (← expressionStmt expression)

/-- A `for` loop behind its first word. -/
def forStmt (expression : Indexed Expr) (block : Indexed (List Stmt)) : Indexed Stmt := do
  let _ ← expect .leftParen "'(' after 'for'"
  let initial ← forInitial expression
  let condition ← optional expression .semicolon
  let _ ← expect .semicolon "';' after loop condition"
  let step ← optional expression .rightParen
  let _ ← expect .rightParen "')' after for clauses"
  let body ← inLoop (braced block "'\x7b' before for body")
  return Rule.forLoop initial condition step body

/-- A `return` statement behind its first word. -/
def returnStmt (expression : Indexed Expr) (keyword : Token) : Indexed Stmt := do
  let value ← optional expression .semicolon
  let _ ← expect .semicolon "';' after return value"
  return .returnValue keyword value

/-- A `break` or `continue` statement behind its word. -/
def jumpStmt (keyword : Token) (word : String) (stmt : Stmt) : Indexed Stmt := do
  if (← place).loops = 0 then fail keyword (.outsideLoop word)
  else
    let _ ← expect .semicolon ("';' after '" ++ word ++ "'")
    return stmt

/-- A statement that declares nothing. -/
def statement (expression : Indexed Expr) (block : Indexed (List Stmt)) : Indexed Stmt := do
  match (← peek).kind with
  | .kwPrint => let _ ← advance; printStmt expression
  | .kwIf => let _ ← advance; ifStmt expression block
  | .kwWhile => let _ ← advance; whileStmt expression block
  | .kwFor => let _ ← advance; forStmt expression block
  | .kwReturn => let keyword ← advance; returnStmt expression keyword
  | .kwBreak => let keyword ← advance; jumpStmt keyword "break" (.breakLoop keyword)
  | .kwContinue => let keyword ← advance; jumpStmt keyword "continue" (.continueLoop keyword)
  | .leftBrace => let _ ← advance; return .block (← block)
  | .semicolon => let _ ← advance; return .empty
  | _ => expressionStmt expression

/-- A declaration or another statement, without recovery. -/
def declaration (rounds : Nat) (expression : Indexed Expr) (block : Indexed (List Stmt)) :
    Indexed Stmt := do
  match (← peek).kind with
  | .kwClass => let _ ← advance; classDecl rounds block
  | .kwFun => let _ ← advance; return .functionDecl (← function rounds block "function")
  | .kwVar => let _ ← advance; varDecl expression
  | _ => statement expression block

/-- A declaration or another statement, with an error statement in place of one that cannot be
read. It has to pass a token and to leave the counters as they were. -/
def recovered (rounds : Nat) (expression : Indexed Expr) (block : Indexed (List Stmt)) :
    Indexed Stmt :=
  advancing <| recover rounds (declaration rounds expression block) fun fault =>
    .error fault.token fault.error.message

/-- A block behind its opening brace. -/
def block (rounds : Nat) : Nat → Indexed (List Stmt)
  | 0 => halt .endless
  | calls + 1 => nested do
    let body ←
      many .rightBrace (recovered rounds (expression rounds calls) (block rounds calls)) rounds
    let _ ← expect .rightBrace "'\x7d' after block"
    return body

/-- A program: statements up to the end. No loop may go round more than `rounds` times, and rules
may be called in one another at most `calls` times. -/
def program (rounds calls : Nat) : Indexed (List Stmt) :=
  many .eof (recovered rounds (expression rounds calls) (block rounds calls)) rounds

end Indexed

end Lox

import Lox.Token
import Lox.Diagnostic

/-!
# Grammar rules

A rule reads tokens from a cursor. It ends with a result or with a fault, in both
cases leaving a cursor and the faults it has reported on the way. A rule that fails
has reported the fault it fails with; some faults are reported without failing.
-/
namespace Lox

/-- What can be wrong with the order of tokens. -/
inductive SyntaxError where
  /-- Something else was expected here; the text says what and where. -/
  | expected (what : String)
  | tooDeep
  /-- A `break` or `continue`, by its word, that no loop encloses. -/
  | outsideLoop (word : String)
  | assignmentTarget
  | tooManyParameters
deriving DecidableEq, Repr

/-- The message of a syntax error. -/
def SyntaxError.message : SyntaxError → String
  | expected what => "Expect " ++ what ++ "."
  | tooDeep => "Too much nesting."
  | outsideLoop word => "Can't use '" ++ word ++ "' outside of a loop."
  | assignmentTarget => "Invalid assignment target."
  | tooManyParameters => "Can't have more than 255 parameters."

/-- A syntax error and the token it is about. -/
structure SyntaxFault where
  token : Token
  error : SyntaxError
deriving DecidableEq, Repr

/-- The report of a syntax fault. -/
def SyntaxFault.diagnostic (fault : SyntaxFault) : Diagnostic :=
  .atToken fault.token fault.error.message

/-- A place in a list of tokens. -/
structure Cursor where
  /-- The tokens that have not been read, without the closing one. -/
  ahead : List Token
  /-- The token that closes the list. It is never passed. -/
  close : Token
  /-- How many tokens have been read. -/
  position : Nat
  /-- How many nested expressions and blocks are open. -/
  depth : Nat
  /-- How many loops are open in the function body at hand. -/
  loops : Nat
deriving DecidableEq, Repr

namespace Cursor

/-- The cursor before the first token. -/
def start (body : List Token) (close : Token) : Cursor := ⟨body, close, 0, 0, 0⟩

/-- The next token, at the end the closing one. -/
def peek (c : Cursor) : Token := c.ahead.headD c.close

/-- The cursor behind the next token; at the end it stays. -/
def advance (c : Cursor) : Cursor :=
  match c.ahead with
  | [] => c
  | _ :: rest => { c with ahead := rest, position := c.position + 1 }

/-- The tokens from which reading resumes after a fault. The first token is passed in any case;
then all tokens up to and with a semicolon, or up to a word that starts a statement. -/
def resume : List Token → List Token
  | [] => []
  | [_] => []
  | passed :: next :: rest =>
    if passed.kind = .semicolon || next.kind.startsStatement then next :: rest
    else resume (next :: rest)

/-- Passes the tokens that `resume` passes. -/
def resync (c : Cursor) : Cursor :=
  let rest := resume c.ahead
  { c with ahead := rest, position := c.position + (c.ahead.length - rest.length) }

end Cursor

/-- What a rule leaves behind. -/
structure Step (α : Type) where
  outcome : Except SyntaxFault α
  cursor : Cursor
  reports : List SyntaxFault

/-- A rule of the grammar with a result in `α`. -/
def Rule (α : Type) : Type := Cursor → Step α

namespace Rule

variable {α β : Type}

instance : Monad Rule where
  pure a c := ⟨.ok a, c, []⟩
  bind rule next c :=
    match rule c with
    | ⟨.ok a, c, reports⟩ =>
      let step := next a c
      { step with reports := reports ++ step.reports }
    | ⟨.error fault, c, reports⟩ => ⟨.error fault, c, reports⟩

/-- The next token. -/
def peek : Rule Token := fun c => ⟨.ok c.peek, c, []⟩

/-- The tokens ahead. Each round of a loop reads one, so they bound the number of rounds. -/
def ahead : Rule (List Token) := fun c => ⟨.ok c.ahead, c, []⟩

/-- Passes the next token. -/
def advance : Rule Unit := fun c => ⟨.ok (), c.advance, []⟩

/-- Changes the cursor. -/
def update (f : Cursor → Cursor) : Rule Unit := fun c => ⟨.ok (), f c, []⟩

/-- How many loops are open. -/
def loops : Rule Nat := fun c => ⟨.ok c.loops, c, []⟩

/-- Reports a fault and goes on. -/
def report (token : Token) (error : SyntaxError) : Rule Unit :=
  fun c => ⟨.ok (), c, [⟨token, error⟩]⟩

/-- Reports a fault and fails with it. -/
def fail (token : Token) (error : SyntaxError) : Rule α :=
  fun c => ⟨.error ⟨token, error⟩, c, [⟨token, error⟩]⟩

/-- Passes the next token if it is of a class that is wanted. -/
def accept (wanted : Kind → Bool) : Rule (Option Token) := do
  let token ← peek
  if wanted token.kind then
    advance
    return some token
  else return none

/-- Passes a token of the given class, or fails at the next token. -/
def expect (kind : Kind) (what : String) : Rule Token := do
  let token ← peek
  if token.kind = kind then
    advance
    return token
  else fail token (.expected what)

/-- The levels of nesting that expressions and blocks may have together. -/
def maxDepth : Nat := 64

/-- Opens a level of nesting. -/
def enter : Rule Unit := update fun c => { c with depth := c.depth + 1 }

/-- Closes a level of nesting. -/
def leave : Rule Unit := update fun c => { c with depth := c.depth - 1 }

/-- Reads something one level deeper. The level stays open if that fails. -/
def nested (rule : Rule α) : Rule α := do
  enter
  let a ← rule
  leave
  return a

/-- Stands for a rule that would be nested too deeply. -/
def tooDeep : Rule α := do
  enter
  fail (← peek) .tooDeep

/-- Reads items until a token of class `stop` or the end, at most one for each element of the
third argument. -/
def manyUntil (stop : Kind) (item : Rule α) : List Token → Rule (List α)
  | [] => return []
  | _ :: more => do
    let kind := (← peek).kind
    if kind = stop ∨ kind = .eof then return []
    else return (← item) :: (← manyUntil stop item more)

/-- Reads items until a token of class `stop` or the end. -/
def many (stop : Kind) (item : Rule α) : Rule (List α) := do
  manyUntil stop item (← ahead)

/-- Turns a failure into a result and resumes behind it, with the nesting and the loops that were
open before. -/
def recover (rule : Rule α) (instead : SyntaxFault → α) : Rule α := fun c =>
  match rule c with
  | ⟨.ok a, after, reports⟩ => ⟨.ok a, after, reports⟩
  | ⟨.error fault, after, reports⟩ =>
    ⟨.ok (instead fault), ({ after with depth := c.depth, loops := c.loops }).resync, reports⟩

end Rule

end Lox

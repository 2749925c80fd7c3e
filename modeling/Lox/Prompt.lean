import Lox.Session
import Lox.Text.Blank

/-!
# The prompt

The prompt runs each line of its input as a source text of its own. A line that is
nothing but `exit` or `EOF` ends it, and so does the end of the input. Blanks around
a line do not count, and a question mark in front stands for the word `help`.
-/
namespace Lox.Prompt

/-- What is written before the first line. -/
def intro : String :=
  "Lox interpreter :: Python backend\nType 'exit' or press Ctrl-D to leave.\n"

/-- What is written before each line. -/
def mark : String := "> "

/-- What a line asks for. -/
inductive Request where
  | nothing
  /-- The end of the session; the end of the input also writes a line feed. -/
  | leave (atEnd : Bool)
  | run (source : String)
deriving DecidableEq, Repr

/-- Reads a line. -/
def Request.ofLine (line : List Char) : Request :=
  match Text.strip line with
  | [] => .nothing
  | '?' :: rest => .run ("help " ++ String.ofList rest)
  | cs =>
    let text := String.ofList cs
    if text = "exit" then .leave false else if text = "EOF" then .leave true else .run text

/-- What a line leaves behind. -/
structure Reply where
  stop : Bool
  session : Session
  output : Output
deriving DecidableEq, Repr

/-- Does what a line asks for. -/
def respond (rounds : Nat) (session : Session) (line : List Char) : Reply :=
  match Request.ofLine line with
  | .nothing => ⟨false, session, .empty⟩
  | .leave atEnd => ⟨true, session, .print (if atEnd then "\n" else "")⟩
  | .run source =>
    let result := session.run rounds source
    ⟨false, result.session, result.output⟩

/-- The lines of a text. The last one need not end with a line feed. -/
def lines : List Char → List (List Char)
  | [] => []
  | c :: rest =>
    if c = '\n' then [] :: lines rest
    else match lines rest with
      | [] => [[c]]
      | line :: others => (c :: line) :: others

/-- Reads lines until one asks to stop; the end of the input does what `EOF` does. -/
def serveLines (rounds : Nat) (session : Session) : List (List Char) → Session × Output
  | [] => (session, .print (mark ++ "\n"))
  | line :: rest =>
    let reply := respond rounds session line
    let written := Output.print mark ++ reply.output
    if reply.stop then (reply.session, written)
    else
      let (final, more) := serveLines rounds reply.session rest
      (final, written ++ more)

/-- A whole conversation over an input text. -/
def serve (rounds : Nat) (session : Session) (input : String) : Session × Output :=
  let (final, written) := serveLines rounds session (lines input.toList)
  (final, .print intro ++ written)

end Lox.Prompt

import Lox.Options
import Lox.Directory
import Lox.Prompt

/-!
# The command

The command runs a script, or talks at a prompt if no script is named, and ends with
an exit status. Its log file is made before the script is read.
-/
namespace Lox.Command

/-- The exit status of a command whose words are wrong. -/
def usageStatus : Nat := 64

/-- The exit status of a script with an error. -/
def dataStatus : Nat := 65

/-- The exit status for a script that cannot be read. -/
def inputStatus : Nat := 66

/-- The name of the log file. -/
def logName : String := "debug.txt"

/-- The line that shows how the command is used. -/
def usage : String := "usage: lox [-h] [-v] [--print-ast] [script ...]\n"

/-- What the help switch shows. -/
def help : String :=
  usage ++ "\nLox language interpreter\n\npositional arguments:\n" ++
    "  script       Lox script to execute (omit for interactive mode)\n\noptions:\n" ++
    "  -h, --help   show this help message and exit\n" ++
    "  -v           increase debug verbosity (can be repeated)\n" ++
    "  --print-ast  print the AST instead of running the program\n"

/-- What a command leaves behind. -/
structure Outcome where
  status : Nat
  output : Output
deriving DecidableEq, Repr

/-- The outcome of a command line that starts nothing. -/
def refuse : Refusal → Outcome
  | .help => ⟨0, .print help⟩
  | .usage error => ⟨usageStatus, .report (usage ++ "lox: error: " ++ error.message ++ "\n")⟩

/-- What a command line starts: a session, with a script for it or without. -/
structure Start where
  session : Session
  script : Option String
deriving DecidableEq, Repr

/-- Reads a command line. More than one script is refused. -/
def start (argv : List String) : Except Outcome Start := do
  let options ← (Options.parse argv).mapError refuse
  if 1 < options.scripts.length then throw ⟨usageStatus, .report "Usage: lox [script]\n"⟩
  return ⟨.new options.verbosity options.showTree, options.scripts.head?⟩

/-- Runs what has been read of a script. -/
def runScript (rounds : Nat) (session : Session) (path : String)
    (contents : Except ReadError ByteArray) : Outcome :=
  match contents with
  | .error error =>
    ⟨inputStatus, .report ("Error: could not read " ++ path ++ ": " ++ error.reason ++ "\n")⟩
  | .ok bytes =>
    match String.fromUTF8? bytes with
    | none => ⟨inputStatus, .report ("Error: " ++ path ++ " is not valid UTF-8\n")⟩
    | some source =>
      let result := session.run rounds source
      ⟨if result.session.flags.failed then dataStatus else 0, result.output⟩

/-- A whole command in a directory, with an input text. Also returns the directory that it
leaves. -/
def run (rounds : Nat) (argv : List String) (directory : Directory) (input : String) :
    Outcome × Directory :=
  match start argv with
  | .error outcome => (outcome, directory)
  | .ok { session, script } =>
    let logs := session.logFile = .opened
    let directory := if logs then directory.write logName .empty else directory
    let outcome := match script with
      | some path => runScript rounds session path (directory.read path)
      | none => ⟨0, (Prompt.serve rounds session input).2⟩
    (outcome, if logs then directory.write logName outcome.output.log.toUTF8 else directory)

end Lox.Command

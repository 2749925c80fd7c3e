import Lox.Command

/-!
# The program

Reads the command line, the script or the standard input, and writes what the
command leaves to its three places.
-/
namespace Lox.Main

/-- More rounds than a loop can use. -/
def rounds : Nat := 1000000000000000000

/-- Writes an output, the log to its file. -/
def write (output : Output) : IO Unit := do
  let stdout ← IO.getStdout
  stdout.putStr output.stdout
  stdout.flush
  (← IO.getStderr).putStr output.stderr
  if !output.log.isEmpty then
    let file ← IO.FS.Handle.mk Command.logName .append
    file.putStr output.log
    file.flush

/-- Why reading a file failed. The system gives its codes with either sign. -/
def readError : IO.Error → ReadError
  | .noFileOrDirectory .. => .noSuchFile
  | .inappropriateType _ code _ =>
    if code = 20 || code + 20 = 0 then .notDirectory else .isDirectory
  | .invalidArgument _ code _ =>
    if code = 36 || code + 36 = 0 then .nameTooLong else .other "Invalid argument"
  | error => .other (toString error)

/-- Reads the file at a path. -/
def read (path : String) : IO (Except ReadError ByteArray) := do
  try
    return .ok (← IO.FS.readBinFile (Directory.canonical path))
  catch error => return .error (readError error)

/-- Talks at the prompt until a line or the end of the input stops it. -/
partial def talk (session : Session) : IO Unit := do
  write (.print Prompt.mark)
  let line ← (← IO.getStdin).getLine
  let reply := Prompt.respond rounds session (if line.isEmpty then "EOF" else line).toList
  write reply.output
  if !reply.stop then talk reply.session

end Lox.Main

/-- The command line. -/
def main (argv : List String) : IO UInt32 := do
  match Lox.Command.start argv with
  | .error outcome =>
    Lox.Main.write outcome.output
    return outcome.status.toUInt32
  | .ok { session, script } =>
    if session.logFile = .opened then IO.FS.writeFile Lox.Command.logName ""
    match script with
    | none =>
      Lox.Main.write (.print Lox.Prompt.intro)
      Lox.Main.talk session
      return 0
    | some path =>
      let outcome := Lox.Command.runScript Lox.Main.rounds session path (← Lox.Main.read path)
      Lox.Main.write outcome.output
      return outcome.status.toUInt32

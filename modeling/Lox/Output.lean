import Lox.Trace

/-!
# Output

The texts that go to the output, to the error stream and to the log file.
-/
namespace Lox

/-- What is written to each of three places. -/
structure Output where
  stdout : String
  stderr : String
  log : String
deriving DecidableEq, Repr

namespace Output

/-- Nothing written. -/
def empty : Output := ⟨"", "", ""⟩

/-- One output after another. -/
def append (first second : Output) : Output :=
  ⟨first.stdout ++ second.stdout, first.stderr ++ second.stderr, first.log ++ second.log⟩

instance : Append Output := ⟨append⟩

/-- Text on the output alone. -/
def print (text : String) : Output := { empty with stdout := text }

/-- Text on the error stream alone. -/
def report (text : String) : Output := { empty with stderr := text }

/-- A line in the log file, or on the output if there is no log file to write to. -/
def logLine (toFile : Bool) (entry : Entry) : Output :=
  if toFile then { empty with log := entry.text ++ "\n" } else print (entry.text ++ "\n")

/-- What is written for an event. -/
def ofEvent (toFile : Bool) : Event → Output
  | .printed text => print (text ++ "\n")
  | .logged entry => logLine toFile entry

/-- What is written for events in order. -/
def ofEvents (toFile : Bool) (events : List Event) : Output :=
  ⟨String.join (events.map fun event => (ofEvent toFile event).stdout), "",
    String.join (events.map fun event => (ofEvent toFile event).log)⟩

end Output

end Lox

import Lox.Token

/-!
# Diagnostics

A diagnostic is what the error stream shows: a static one names a line and
possibly the text it is about, a runtime one has only its message. The flags
remember which of the two sorts has been reported since they were last cleared.
-/
namespace Lox

/-- A report on the error stream. -/
inductive Diagnostic where
  | static (line : Int) (message : String) (about : Option String)
  | runtime (message : String)
deriving DecidableEq, Repr

namespace Diagnostic

/-- A static report about a token, at the line of the token. -/
def atToken (token : Token) (message : String) : Diagnostic :=
  static token.line message (some token.mention)

/-- The lines written for a diagnostic, without colour: it is assumed that the error stream is no
terminal, or one on which colour is turned off. -/
def text : Diagnostic → String
  | static line message about =>
    "[line " ++ toString line ++ "] Error: " ++ message ++ "\n" ++
      match about with
      | some mention => "About: " ++ mention ++ "\n"
      | none => ""
  | runtime message => "Runtime Error: " ++ message ++ "\n"

end Diagnostic

/-- Which sorts of error have been reported. -/
structure Flags where
  hadError : Bool
  hadRuntimeError : Bool
deriving DecidableEq, Repr

namespace Flags

/-- Nothing reported yet. -/
def clear : Flags := ⟨false, false⟩

/-- Some error has been reported. -/
def failed (flags : Flags) : Bool := flags.hadError || flags.hadRuntimeError

/-- The flags after one more report. -/
def note (flags : Flags) : Diagnostic → Flags
  | .static .. => { flags with hadError := true }
  | .runtime _ => { flags with hadRuntimeError := true }

/-- The flags after several more reports. -/
def noteAll (flags : Flags) (reports : List Diagnostic) : Flags := reports.foldl note flags

end Flags

end Lox

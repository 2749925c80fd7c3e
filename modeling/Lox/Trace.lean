import Lox.Value

/-!
# What a run writes

A run writes lines to the output and entries to a log. Every entry has a level, and
a run writes the entries up to the level that has been asked for.
-/
namespace Lox

/-- An entry of the log. -/
inductive Entry where
  | execute (form : String)
  | enterScope (depth : Nat)
  | leaveScope (depth : Nat)
  | define (name : String) (value : Value)
  | assign (name : String) (value : Value)
  | condition (value : Value)
  | branch (taken : Bool)
  | fault (message : String)
deriving DecidableEq, Repr

namespace Entry

/-- The least verbosity at which an entry is written. -/
def level : Entry → Nat
  | execute _ | fault _ => 1
  | enterScope _ | leaveScope _ | define .. | assign .. => 2
  | condition _ | branch _ => 3

/-- The entry shows a value. -/
def showsValue : Entry → Bool
  | define .. | assign .. | condition _ => true
  | execute _ | enterScope _ | leaveScope _ | branch _ | fault _ => false

/-- The text of an entry. -/
def text : Entry → String
  | execute form => "execute " ++ form
  | enterScope depth => "enter scope depth " ++ toString depth
  | leaveScope depth => "leave scope depth " ++ toString depth
  | define name value => "define " ++ name ++ " = " ++ value.inspect
  | assign name value => "assign " ++ name ++ " = " ++ value.inspect
  | condition value => "condition " ++ value.inspect
  | branch taken => "if condition -> " ++ Value.truthName taken
  | fault message => "runtime error: " ++ message

theorem level_pos (entry : Entry) : 0 < entry.level := by cases entry <;> simp [level]

end Entry

/-- Something that a run has written. -/
inductive Event where
  | printed (text : String)
  | logged (entry : Entry)
deriving DecidableEq, Repr

end Lox

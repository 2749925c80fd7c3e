import Lox.Decimal
import Lox.Text.Quoted

/-!
# Values

A value is a number, a string, a boolean or nil, and values of different types are
never equal. Numbers are doubles, except that a NaN remembers where it comes from:
it equals itself, wherever it has been passed on to, and no other NaN.
-/
namespace Lox

/-- Where a NaN comes from: a numbered place in a program, or a numbered operation of a run. -/
inductive Origin where
  | written (index : Nat)
  | computed (serial : Nat)
deriving DecidableEq, Repr

/-- A double, or a NaN with its origin. -/
inductive Number where
  | real (x : Float)
  | nan (origin : Origin)
deriving DecidableEq, Repr

namespace Number

/-- The double of a number. -/
def toFloat : Number → Float
  | real x => x
  | nan _ => 0.0 / 0.0

/-- The number that an operation with this origin returns. -/
def ofFloat (origin : Origin) (x : Float) : Number := if x.isNaN then nan origin else real x

/-- Equality of numbers: that of doubles, and a NaN equals itself. -/
def same : Number → Number → Bool
  | real x, real y => x == y
  | nan a, nan b => a == b
  | _, _ => false

/-- The text of a number. -/
def text (n : Number) : String := Binary64.text n.toFloat

end Number

/-- What an expression can stand for. -/
inductive Value where
  | number (n : Number)
  | string (text : String)
  | boolean (b : Bool)
  | nil
deriving DecidableEq, Repr

/-- The types of values. -/
inductive ValueType where
  | number | string | boolean | nil
deriving DecidableEq, Repr

/-- The name of a type in messages. -/
def ValueType.name : ValueType → String
  | number => "number"
  | string => "string"
  | boolean => "boolean"
  | nil => "nil"

namespace Value

/-- The type of a value. -/
def type : Value → ValueType
  | number _ => .number
  | string _ => .string
  | boolean _ => .boolean
  | nil => .nil

/-- Equality as the language sees it. -/
def same : Value → Value → Bool
  | number a, number b => a.same b
  | string a, string b => a == b
  | boolean a, boolean b => a == b
  | nil, nil => true
  | _, _ => false

/-- The text that `print` writes. -/
def text : Value → String
  | number n => n.text
  | string text => text
  | boolean true => "true"
  | boolean false => "false"
  | nil => "nil"

/-- The name of a truth value in the log. -/
def truthName (b : Bool) : String := if b then "True" else "False"

/-- The text of a value in the log, which shows its type. -/
def inspect : Value → String
  | number n => "Number(" ++ n.text ++ ")"
  | string text => "String(value=" ++ Text.quoted text ++ ")"
  | boolean b => "Boolean(value=" ++ truthName b ++ ")"
  | nil => "Nil"

end Value

end Lox

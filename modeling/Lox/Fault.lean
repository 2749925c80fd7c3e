import Lox.Token
import Lox.Value

/-!
# Faults

What can go wrong while a program runs. A fault has a message, and faults of
operators and of forms that cannot be executed also have the token at fault.
-/
namespace Lox

/-- The causes of runtime errors. -/
inductive Fault where
  | undefined (name : String)
  | condition (type : ValueType)
  | logicalOperand (op : Token) (type : ValueType)
  | negatedOperand (op : Token) (type : ValueType)
  | invertedOperand (op : Token) (type : ValueType)
  | numericOperands (op : Token) (left right : ValueType)
  | divisionByZero (op : Token)
  | unaryOperator (op : Token)
  | binaryOperator (op : Token)
  | functionDecl (name : Token)
  | classDecl (name : Token)
  | returnValue (keyword : Token)
deriving DecidableEq, Repr

namespace Fault

/-- The message of a fault. -/
def message : Fault → String
  | undefined name => "Undefined variable '" ++ name ++ "'."
  | condition type => "Condition must be a boolean, got " ++ type.name ++ "."
  | logicalOperand op type =>
    "Operands must be booleans for operator '" ++ op.lexeme ++ "', got " ++ type.name ++ "."
  | negatedOperand _ type => "Operand must be a number for operator '-', got " ++ type.name ++ "."
  | invertedOperand _ type => "Operand must be a boolean for operator '!', got " ++ type.name ++ "."
  | numericOperands op left right =>
    "Operands must be numbers for operator '" ++ op.lexeme ++ "', got " ++ left.name ++ " and " ++
      right.name ++ "."
  | divisionByZero _ => "Division by zero."
  | unaryOperator op => "Invalid unary operator '" ++ op.lexeme ++ "'."
  | binaryOperator op => "Invalid binary operator '" ++ op.lexeme ++ "'."
  | functionDecl name => "Function declarations are not supported ('" ++ name.lexeme ++ "')."
  | classDecl name => "Class declarations are not supported ('" ++ name.lexeme ++ "')."
  | returnValue _ => "Return statements are not supported."

/-- The token at fault; names and conditions have none. -/
def token? : Fault → Option Token
  | undefined _ | condition _ => none
  | logicalOperand op _ | negatedOperand op _ | invertedOperand op _ | numericOperands op _ _
  | divisionByZero op | unaryOperator op | binaryOperator op => some op
  | functionDecl name | classDecl name => some name
  | returnValue keyword => some keyword

end Fault

end Lox

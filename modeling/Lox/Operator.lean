import Lox.Fault

/-!
# Operators

Operators never convert their operands. Arithmetic and order take numbers,
negation of truth takes a boolean, and equality takes any two values.
-/
namespace Lox

namespace Operator

/-- Applies an operator to one operand. A NaN that comes out has the given origin. -/
def unary (origin : Origin) (op : Token) (operand : Value) : Except Fault Value :=
  match op.kind with
  | .minus => match operand with
    | .number n => .ok (.number (.ofFloat origin (-n.toFloat)))
    | _ => .error (.negatedOperand op operand.type)
  | .bang => match operand with
    | .boolean b => .ok (.boolean !b)
    | _ => .error (.invertedOperand op operand.type)
  | _ => .error (.unaryOperator op)

/-- Applies an arithmetic or order operator to two doubles. -/
def numeric (origin : Origin) (op : Token) (x y : Float) : Except Fault Value :=
  match op.kind with
  | .plus => .ok (.number (.ofFloat origin (x + y)))
  | .minus => .ok (.number (.ofFloat origin (x - y)))
  | .star => .ok (.number (.ofFloat origin (x * y)))
  | .slash =>
    if y == 0.0 then .error (.divisionByZero op) else .ok (.number (.ofFloat origin (x / y)))
  | .greater => .ok (.boolean (y < x))
  | .greaterEqual => .ok (.boolean (y ≤ x))
  | .less => .ok (.boolean (x < y))
  | .lessEqual => .ok (.boolean (x ≤ y))
  | _ => .error (.binaryOperator op)

/-- Applies an operator to two operands. A NaN that comes out has the given origin. -/
def binary (origin : Origin) (op : Token) (left right : Value) : Except Fault Value :=
  match op.kind with
  | .equalEqual => .ok (.boolean (left.same right))
  | .bangEqual => .ok (.boolean !left.same right)
  | _ => match left, right with
    | .number a, .number b => numeric origin op a.toFloat b.toFloat
    | _, _ => .error (.numericOperands op left.type right.type)

/-- Disjunctions go on at `false`; conjunctions, and what is not written as a disjunction, go on
at `true`. -/
def goesOn (op : Token) (left : Bool) : Bool :=
  if op.kind = .orOr ∨ op.kind = .kwOr then !left else left

/-- The truth value of an operand of a conjunction or disjunction. -/
def truth (op : Token) : Value → Except Fault Bool
  | .boolean b => .ok b
  | value => .error (.logicalOperand op value.type)

end Operator

end Lox

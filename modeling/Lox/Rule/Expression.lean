import Lox.Rule
import Lox.Syntax

/-!
# Rules for expressions

Operators of two operands are given by a table of levels, from the loosest to the
tightest; on each level they group to the left. Prefix operators and assignment
group to the right. The rules for an expression and for an operand are indexed by
the number of levels of nesting that may still be opened.
-/
namespace Lox.Rule

/-- A level of operators with two operands: their classes, and the expression they make. -/
structure Level where
  wanted : Kind → Bool
  make : Expr → Token → Expr → Expr

/-- The levels of operators with two operands, the loosest first. -/
def levels : List Level :=
  [⟨fun kind => kind == .orOr || kind == .kwOr, .logical⟩,
    ⟨fun kind => kind == .andAnd || kind == .kwAnd, .logical⟩,
    ⟨fun kind => kind == .bangEqual || kind == .equalEqual, .binary⟩,
    ⟨fun kind => kind == .greater || kind == .greaterEqual || kind == .less || kind == .lessEqual,
      .binary⟩,
    ⟨fun kind => kind == .minus || kind == .plus, .binary⟩,
    ⟨fun kind => kind == .slash || kind == .star, .binary⟩]

/-- Reads further operators of a level with their right operands behind `left`, at most one for
each element of the last argument. -/
def chainFrom (level : Level) (operand : Rule Expr) (left : Expr) : List Token → Rule Expr
  | [] => return left
  | _ :: more => do
    match ← accept level.wanted with
    | none => return left
    | some op => chainFrom level operand (level.make left op (← operand)) more

/-- Operands with operators of one level between them. -/
def chain (level : Level) (operand : Rule Expr) : Rule Expr := do
  let left ← operand
  chainFrom level operand left (← ahead)

/-- Operands with operators of all levels between them. -/
def operation (operand : Rule Expr) : Rule Expr := levels.foldr chain operand

/-- An operation, or an assignment if `=` follows it. A target that is no name is reported, and
then the expression is the target alone. -/
def assignment (operand expression : Rule Expr) : Rule Expr := do
  let target ← operation operand
  match ← accept (· == .equal) with
  | none => return target
  | some equals =>
    let value ← expression
    match target with
    | .ident name => return .assign name value
    | _ =>
      report equals .assignmentTarget
      return target

/-- The literal that a number token denotes. The text of a number token is digits, which may have a
point and more digits after them; no other number token is made of a source. -/
def numberLiteral (token : Token) : Expr :=
  .literal (.number (.real (Decimal.toFloat (token.literal.getD ""))))

/-- A literal, a name, or an expression in parentheses. -/
def primary (expression : Rule Expr) : Rule Expr := do
  let token ← peek
  match token.kind with
  | .kwFalse => advance; return .literal (.boolean false)
  | .kwTrue => advance; return .literal (.boolean true)
  | .kwNil => advance; return .literal .nil
  | .number => advance; return numberLiteral token
  | .string => advance; return .literal (.string (token.literal.getD ""))
  | .identifier => advance; return .ident token
  | .leftParen =>
    advance
    let inner ← expression
    let _ ← expect .rightParen "')' after expression"
    return .grouping inner
  | _ => fail token (.expected "expression")

/-- A prefix operator with its operand, which `deeper` reads, or a primary expression. -/
def prefixed (deeper expression : Rule Expr) : Rule Expr := do
  match ← accept fun kind => kind == .bang || kind == .minus with
  | some op => return .unary op (← deeper)
  | none => primary expression

mutual

/-- An expression, when `room` more levels of nesting may be opened. -/
def expression (room : Nat) : Rule Expr :=
  match room with
  | 0 => tooDeep
  | room + 1 => nested (assignment (operand room) (expression room))

/-- An operand, when `room` more levels of nesting may be opened. -/
def operand (room : Nat) : Rule Expr :=
  match room with
  | 0 => prefixed tooDeep tooDeep
  | room + 1 =>
    prefixed (nested (operand room)) (nested (assignment (operand room) (expression room)))

end

theorem operand_succ (room : Nat) :
    operand (room + 1) = prefixed (nested (operand room)) (expression (room + 1)) := by
  rw [operand, expression]

/-- An expression that is followed by the end. -/
def wholeExpression : Rule Expr := do
  let e ← expression maxDepth
  let token ← peek
  if token.kind = .eof then return e else fail token (.expected "end of expression")

end Lox.Rule

namespace Lox

/-- Reads tokens as one expression. -/
def Expr.parse (body : List Token) (close : Token) : Step Expr :=
  Rule.wholeExpression (.start body close)

end Lox

import Lox.Token
import Lox.Value

/-!
# Programs

Expressions and statements as trees. Operators and names are kept as the tokens
they were read from. The bodies of branches and loops are blocks, so a body is the
list of its statements.
-/
namespace Lox

/-- Expressions. -/
inductive Expr where
  | literal (value : Value)
  | unary (op : Token) (right : Expr)
  | binary (left : Expr) (op : Token) (right : Expr)
  /-- A conjunction or disjunction, whose right operand is evaluated only if it decides. -/
  | logical (left : Expr) (op : Token) (right : Expr)
  | grouping (inner : Expr)
  | ident (name : Token)
  | assign (name : Token) (value : Expr)
deriving DecidableEq, Repr

/-- The number of expressions on the longest path into an expression: how many calls are open at once
while it is shown. -/
def Expr.height : Expr → Nat
  | literal _ | ident _ => 1
  | unary _ right => right.height + 1
  | binary left _ right | logical left _ right => max left.height right.height + 1
  | grouping inner => inner.height + 1
  | assign _ value => value.height + 1

mutual

/-- Statements. -/
inductive Stmt where
  | expression (e : Expr)
  | print (e : Expr)
  | varDecl (name : Token) (initial : Option Expr)
  | block (body : List Stmt)
  | ifThen (condition : Expr) (body : List Stmt)
  | ifElse (condition : Expr) (body alternative : List Stmt)
  /-- A loop. The step is evaluated after each round, also after one cut short by `continue`. -/
  | whileLoop (condition : Expr) (body : List Stmt) (step : Option Expr)
  | functionDecl (function : Function)
  | returnValue (keyword : Token) (value : Option Expr)
  | classDecl (name : Token) (superclass : Option Token) (methods : List Function)
  | breakLoop (keyword : Token)
  | continueLoop (keyword : Token)
  | empty
  /-- Stands for a statement that could not be read. -/
  | error (token : Token) (message : String)

/-- A function or method with its name, parameters and body. -/
inductive Function where
  | mk (name : Token) (params : List Token) (body : List Stmt)

end

namespace Function

def name : Function → Token
  | mk name _ _ => name

def params : Function → List Token
  | mk _ params _ => params

def body : Function → List Stmt
  | mk _ _ body => body

end Function

/-- The height of an expression that may be missing. -/
def Expr.heightOf? (e : Option Expr) : Nat := (e.map Expr.height).getD 0

mutual

/-- How many calls are open at once while a statement is shown. The statements of a list are shown in
a call around those for each of them, and so are the methods of a class. -/
def Stmt.height : Stmt → Nat
  | .expression e | .print e => e.height + 1
  | .varDecl _ initial => Expr.heightOf? initial + 1
  | .block body => Stmt.heightAll body + 1
  | .ifThen condition body => max condition.height (Stmt.heightAll body + 1) + 1
  | .ifElse condition body alternative =>
    max condition.height (max (Stmt.heightAll body) (Stmt.heightAll alternative) + 1) + 1
  | .whileLoop condition body step =>
    max condition.height (max (Stmt.heightAll body + 1) (Expr.heightOf? step)) + 1
  | .functionDecl function => function.height
  | .returnValue _ value => Expr.heightOf? value + 1
  | .classDecl _ _ methods => Function.heightAll methods + 1
  | .breakLoop _ | .continueLoop _ | .empty | .error .. => 1

/-- How many calls are open at once while the statements of a list are shown. -/
def Stmt.heightAll : List Stmt → Nat
  | [] => 1
  | stmt :: rest => max (stmt.height + 1) (Stmt.heightAll rest)

/-- How many calls are open at once while a function is shown. -/
def Function.height : Function → Nat
  | .mk _ _ body => Stmt.heightAll body + 1

/-- How many calls are open at once while the functions of a list are shown. -/
def Function.heightAll : List Function → Nat
  | [] => 1
  | function :: rest => max (function.height + 1) (Function.heightAll rest)

end

end Lox

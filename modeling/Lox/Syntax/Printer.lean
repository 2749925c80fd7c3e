import Lox.Syntax

/-!
# Programs in prefix notation

Every compound form is written in parentheses with its name or operator first.
Strings stand between double quotes as they are, without escapes, and the
statements of a program stand on lines of their own.
-/
namespace Lox

/-- Parts in parentheses, with spaces between them. -/
def parenthesize (parts : List String) : String := "(" ++ " ".intercalate parts ++ ")"

/-- An expression in prefix notation. -/
def Expr.render : Expr → String
  | literal (.string text) => "\"" ++ text ++ "\""
  | literal value => value.text
  | unary op right => parenthesize [op.lexeme, right.render]
  | binary left op right | logical left op right =>
    parenthesize [op.lexeme, left.render, right.render]
  | grouping inner => parenthesize ["group", inner.render]
  | ident name => name.lexeme
  | assign name value => parenthesize [name.lexeme, "=", value.render]

mutual

/-- A statement in prefix notation. -/
def Stmt.render : Stmt → String
  | .expression e => parenthesize [";", e.render]
  | .print e => parenthesize ["print", e.render]
  | .varDecl name none => parenthesize ["var", name.lexeme]
  | .varDecl name (some initial) => parenthesize ["var", name.lexeme, "=", initial.render]
  | .block body => parenthesize ("block" :: Stmt.renderAll body)
  | .ifThen condition body =>
    parenthesize ["if", condition.render, parenthesize ("block" :: Stmt.renderAll body)]
  | .ifElse condition body alternative =>
    parenthesize ["if", condition.render, parenthesize ("block" :: Stmt.renderAll body),
      parenthesize ("block" :: Stmt.renderAll alternative)]
  | .whileLoop condition body none =>
    parenthesize ["while", condition.render, parenthesize ("block" :: Stmt.renderAll body)]
  | .whileLoop condition body (some step) =>
    parenthesize ["while", condition.render, parenthesize ("block" :: Stmt.renderAll body),
      parenthesize ["step", step.render]]
  | .functionDecl function => function.render
  | .returnValue _ none => parenthesize ["return"]
  | .returnValue _ (some value) => parenthesize ["return", value.render]
  | .classDecl name none methods =>
    parenthesize ("class" :: name.lexeme :: Function.renderAll methods)
  | .classDecl name (some superclass) methods =>
    parenthesize ("class" :: name.lexeme :: "<" :: superclass.lexeme :: Function.renderAll methods)
  | .breakLoop _ => parenthesize ["break"]
  | .continueLoop _ => parenthesize ["continue"]
  | .empty => parenthesize ["empty"]
  | .error _ message => parenthesize ["error", "\"" ++ message ++ "\""]

/-- The statements of a list in prefix notation, one text each. -/
def Stmt.renderAll : List Stmt → List String
  | [] => []
  | stmt :: rest => stmt.render :: Stmt.renderAll rest

/-- A function in prefix notation. -/
def Function.render : Function → String
  | .mk name params body =>
    parenthesize ("fun" :: name.lexeme :: parenthesize (params.map Token.lexeme) ::
      Stmt.renderAll body)

/-- The functions of a list in prefix notation, one text each. -/
def Function.renderAll : List Function → List String
  | [] => []
  | function :: rest => function.render :: Function.renderAll rest

end

/-- A program in prefix notation, one line for each statement. -/
def Stmt.renderProgram (program : List Stmt) : String := "\n".intercalate (Stmt.renderAll program)

end Lox

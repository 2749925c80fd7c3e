/-!
# Tokens

A token keeps the text it was read from, the payload that text stands for, and
the line on which it ends. Words and numbers carry their own text as payload,
strings their decoded contents, marks nothing.
-/
namespace Lox

/-- The classes of token. Reserved words have the names `kwAnd`, `kwBreak`, and so on. -/
inductive Kind where
  | leftParen | rightParen | leftBrace | rightBrace
  | comma | dot | minus | plus | semicolon | slash | star
  | bang | bangEqual | equal | equalEqual
  | greater | greaterEqual | less | lessEqual
  | andAnd | orOr
  | identifier | string | number
  | kwAnd | kwBreak | kwClass | kwContinue | kwElse | kwFalse | kwFor | kwFun | kwIf
  | kwNil | kwOr | kwPrint | kwReturn | kwSuper | kwThis | kwTrue | kwVar | kwWhile
  | eof
deriving DecidableEq, Repr

namespace Kind

/-- The name under which a class is shown. -/
def name : Kind → String
  | leftParen => "LEFT_PAREN"
  | rightParen => "RIGHT_PAREN"
  | leftBrace => "LEFT_BRACE"
  | rightBrace => "RIGHT_BRACE"
  | comma => "COMMA"
  | dot => "DOT"
  | minus => "MINUS"
  | plus => "PLUS"
  | semicolon => "SEMICOLON"
  | slash => "SLASH"
  | star => "STAR"
  | bang => "BANG"
  | bangEqual => "BANG_EQUAL"
  | equal => "EQUAL"
  | equalEqual => "EQUAL_EQUAL"
  | greater => "GREATER"
  | greaterEqual => "GREATER_EQUAL"
  | less => "LESS"
  | lessEqual => "LESS_EQUAL"
  | andAnd => "AND_AND"
  | orOr => "OR_OR"
  | identifier => "IDENTIFIER"
  | string => "STRING"
  | number => "NUMBER"
  | kwAnd => "AND"
  | kwBreak => "BREAK"
  | kwClass => "CLASS"
  | kwContinue => "CONTINUE"
  | kwElse => "ELSE"
  | kwFalse => "FALSE"
  | kwFor => "FOR"
  | kwFun => "FUN"
  | kwIf => "IF"
  | kwNil => "NIL"
  | kwOr => "OR"
  | kwPrint => "PRINT"
  | kwReturn => "RETURN"
  | kwSuper => "SUPER"
  | kwThis => "THIS"
  | kwTrue => "TRUE"
  | kwVar => "VAR"
  | kwWhile => "WHILE"
  | eof => "EOF"

/-- The reserved words with their classes. -/
def reserved : List (String × Kind) :=
  [("and", kwAnd), ("break", kwBreak), ("class", kwClass), ("continue", kwContinue),
    ("else", kwElse), ("false", kwFalse), ("for", kwFor), ("fun", kwFun), ("if", kwIf),
    ("nil", kwNil), ("or", kwOr), ("print", kwPrint), ("return", kwReturn),
    ("super", kwSuper), ("this", kwThis), ("true", kwTrue), ("var", kwVar),
    ("while", kwWhile)]

/-- A word is its reserved class if it has one and an identifier otherwise. -/
def ofWord (word : String) : Kind := (reserved.lookup word).getD identifier

/-- All classes, marks first. -/
def all : List Kind :=
  [leftParen, rightParen, leftBrace, rightBrace, comma, dot, minus, plus, semicolon, slash,
    star, bang, bangEqual, equal, equalEqual, greater, greaterEqual, less, lessEqual, andAnd,
    orOr, identifier, string, number, eof] ++ reserved.map Prod.snd

theorem mem_all (kind : Kind) : kind ∈ all := by cases kind <;> decide

/-- The class shown under `text`. -/
def ofName? (text : String) : Option Kind := all.find? (·.name == text)

/-- The classes that open a statement by a reserved word; recovery stops before them. -/
def startsStatement : Kind → Bool
  | kwClass | kwFun | kwVar | kwFor | kwIf | kwWhile | kwPrint | kwReturn => true
  | _ => false

end Kind

/-- One token of a source text. -/
structure Token where
  kind : Kind
  lexeme : String
  literal : Option String
  line : Int
deriving DecidableEq, Repr

namespace Token

/-- The class, the lexeme and the payload, with `None` for no payload. -/
def describe (token : Token) : String :=
  token.kind.name ++ " " ++ token.lexeme ++ " " ++ token.literal.getD "None"

/-- How a message refers to a token: by its text, or as the end of the source. -/
def mention (token : Token) : String :=
  if token.kind = .eof then "end" else token.lexeme

end Token

end Lox

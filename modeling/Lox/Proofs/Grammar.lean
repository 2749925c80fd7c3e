import Lox.Syntax
import Mathlib.Tactic

/-!
# The grammar

Which tokens stand for which expression or program, said without a reader. A
derivation is indexed by the levels of nesting that its paths may open: one for
each `expression`, each right side of `=`, each operand of a prefix operator and
each block. Operators with two operands come in tiers, and a tier is written with
the recursion on the left because its operators group to the left.
-/
namespace Lox

/-- The payload of a token, empty for a token without one. -/
def Token.payload (token : Token) : String := token.literal.getD ""

namespace Grammar

/-- The tiers of operators with two operands, the loosest first. -/
inductive Tier where
  | logicOr | logicAnd | equality | comparison | term | factor
deriving DecidableEq, Repr

namespace Tier

/-- The operators of a tier. -/
def operators : Tier → List Kind
  | logicOr => [.orOr, .kwOr]
  | logicAnd => [.andAnd, .kwAnd]
  | equality => [.bangEqual, .equalEqual]
  | comparison => [.greater, .greaterEqual, .less, .lessEqual]
  | term => [.minus, .plus]
  | factor => [.slash, .star]

/-- The expression that an operator of a tier makes of its operands. -/
def join : Tier → Expr → Token → Expr → Expr
  | logicOr | logicAnd => .logical
  | equality | comparison | term | factor => .binary

end Tier

/-- The symbols of the grammar of expressions. -/
inductive Symbol where
  | expression | assignment | tier (t : Tier) | unary | primary
deriving DecidableEq, Repr

/-- What the operands of a tier derive from: the next tier, behind the last one `unary`. -/
def Tier.operand : Tier → Symbol
  | logicOr => .tier .logicAnd
  | logicAnd => .tier .equality
  | equality => .tier .comparison
  | comparison => .tier .term
  | term => .tier .factor
  | factor => .unary

/-- The tokens derive from the symbol and stand for the expression. No path of the derivation
opens more than `room` levels. -/
inductive Derives : (room : Nat) → Symbol → List Token → Expr → Prop
  | expression {room ts e} :
      Derives room .assignment ts e → Derives (room + 1) .expression ts e
  | assign {room ts e} {name equals : Token} :
      name.kind = .identifier → equals.kind = .equal → Derives room .assignment ts e →
      Derives (room + 1) .assignment (name :: equals :: ts) (.assign name e)
  | operation {room ts e} :
      Derives room (.tier .logicOr) ts e → Derives room .assignment ts e
  | single {room t ts e} :
      Derives room (Tier.operand t) ts e → Derives room (.tier t) ts e
  | join {room t ts us left right} {op : Token} :
      Derives room (.tier t) ts left → op.kind ∈ t.operators → Derives room t.operand us right →
      Derives room (.tier t) (ts ++ op :: us) (t.join left op right)
  | unary {room ts e} {op : Token} :
      op.kind = .bang ∨ op.kind = .minus → Derives room .unary ts e →
      Derives (room + 1) .unary (op :: ts) (.unary op e)
  | primary {room ts e} :
      Derives room .primary ts e → Derives room .unary ts e
  | number {room} {token : Token} :
      token.kind = .number →
      Derives room .primary [token] (.literal (.number (.real (Decimal.toFloat token.payload))))
  | string {room} {token : Token} :
      token.kind = .string → Derives room .primary [token] (.literal (.string token.payload))
  | true {room} {token : Token} :
      token.kind = .kwTrue → Derives room .primary [token] (.literal (.boolean .true))
  | false {room} {token : Token} :
      token.kind = .kwFalse → Derives room .primary [token] (.literal (.boolean .false))
  | nil {room} {token : Token} :
      token.kind = .kwNil → Derives room .primary [token] (.literal .nil)
  | ident {room} {name : Token} :
      name.kind = .identifier → Derives room .primary [name] (.ident name)
  | grouping {room ts e} {opening closing : Token} :
      opening.kind = .leftParen → Derives room .expression ts e → closing.kind = .rightParen →
      Derives room .primary (opening :: ts ++ [closing]) (.grouping e)

/-- The classes of the tokens with which an expression starts. -/
def starters : List Kind :=
  [.number, .string, .kwTrue, .kwFalse, .kwNil, .identifier, .leftParen, .bang, .minus]

/-- An expression has a first token, of one of the starting classes. -/
theorem Derives.head {room symbol ts e} (h : Derives room symbol ts e) :
    ∃ t us, ts = t :: us ∧ t.kind ∈ starters := by
  induction h with
  | expression _ ih => exact ih
  | @assign _ us _ name equals hname =>
    exact ⟨name, equals :: us, rfl, by simp [hname, starters]⟩
  | operation _ ih => exact ih
  | single _ ih => exact ih
  | join _ _ _ ih =>
    obtain ⟨t, us, rfl, ht⟩ := ih
    exact ⟨t, _, rfl, ht⟩
  | @unary _ us _ op hop =>
    exact ⟨op, us, rfl, by rcases hop with hop | hop <;> simp [hop, starters]⟩
  | primary _ ih => exact ih
  | number h | string h | true h | false h | nil h | ident h =>
    exact ⟨_, [], rfl, by simp [h, starters]⟩
  | grouping h => exact ⟨_, _, rfl, by simp [h, starters]⟩

/-- A primary expression starts with no prefix operator. -/
theorem Derives.primary_head {room ts e} (h : Derives room .primary ts e) :
    ∃ t us, ts = t :: us ∧ t.kind ≠ .bang ∧ t.kind ≠ .minus := by
  cases h with
  | number h | string h | true h | false h | nil h | ident h => exact ⟨_, [], rfl, by simp [h]⟩
  | grouping h => exact ⟨_, _, rfl, by simp [h]⟩

/-- Only a name alone stands for a name. -/
theorem Derives.eq_ident {room symbol ts name} (h : Derives room symbol ts (.ident name)) :
    ts = [name] ∧ name.kind = .identifier := by
  generalize he : Expr.ident name = e at h
  induction h with
  | expression _ ih | operation _ ih | single _ ih | primary _ ih => exact ih he
  | @join _ t => cases t <;> cases he
  | ident h =>
    cases he
    exact ⟨rfl, h⟩
  | assign | unary | number | string | true | false | nil | grouping => cases he

/-- An expression that may be left out. -/
def DerivesOptional (room : Nat) (ts : List Token) : Option Expr → Prop
  | none => ts = []
  | some e => Derives room .expression ts e

/-- `( "=" expression )?` -/
inductive DerivesInitial (room : Nat) : List Token → Option Expr → Prop
  | none : DerivesInitial room [] none
  | some {ts e} {equals : Token} :
      equals.kind = .equal → Derives room .expression ts e →
      DerivesInitial room (equals :: ts) (some e)

/-- `( "<" IDENT )?` -/
inductive DerivesSuperclass : List Token → Option Token → Prop
  | none : DerivesSuperclass [] none
  | some {less name : Token} :
      less.kind = .less → name.kind = .identifier → DerivesSuperclass [less, name] (some name)

/-- `IDENT ( "," IDENT )*` -/
inductive DerivesNames : List Token → List Token → Prop
  | one {name : Token} : name.kind = .identifier → DerivesNames [name] [name]
  | more {name comma : Token} {ts names} :
      name.kind = .identifier → comma.kind = .comma → DerivesNames ts names →
      DerivesNames (name :: comma :: ts) (name :: names)

/-- The parameters of a function, at most 255. -/
def DerivesParameters (ts params : List Token) : Prop :=
  (ts = [] ∧ params = []) ∨ (DerivesNames ts params ∧ params.length ≤ 255)

/-- The phrases that statements are made of, each with what it stands for. -/
inductive Phrase where
  | declarations (body : List Stmt)
  | declaration (stmt : Stmt)
  | statement (stmt : Stmt)
  | varDecl (stmt : Stmt)
  | exprStmt (stmt : Stmt)
  | initializer (stmt : Stmt)
  | block (body : List Stmt)
  | function (function : Function)
  | functions (functions : List Function)

/-- The loop that the clauses of a `for` stand for. A missing condition is true. -/
def loop (condition step : Option Expr) (body : List Stmt) : Stmt :=
  .whileLoop (condition.getD (.literal (.boolean true))) body step

/-- The tokens are a phrase. No path of the derivation opens more than `room` levels, and
`inLoop` tells whether a loop of the function body at hand encloses the phrase. -/
inductive Forms : (room : Nat) → (inLoop : Bool) → Phrase → List Token → Prop
  | nil {room inLoop} : Forms room inLoop (.declarations []) []
  | cons {room inLoop ts us stmt rest} :
      Forms room inLoop (.declaration stmt) ts → Forms room inLoop (.declarations rest) us →
      Forms room inLoop (.declarations (stmt :: rest)) (ts ++ us)
  | classDecl {room inLoop us ts parent methods} {word name opening closing : Token} :
      word.kind = .kwClass → name.kind = .identifier → DerivesSuperclass us parent →
      opening.kind = .leftBrace → Forms room inLoop (.functions methods) ts →
      closing.kind = .rightBrace →
      Forms room inLoop (.declaration (.classDecl name parent methods))
        (word :: name :: us ++ opening :: ts ++ [closing])
  | funDecl {room inLoop ts function} {word : Token} :
      word.kind = .kwFun → Forms room inLoop (.function function) ts →
      Forms room inLoop (.declaration (.functionDecl function)) (word :: ts)
  | varDeclaration {room inLoop ts stmt} :
      Forms room inLoop (.varDecl stmt) ts → Forms room inLoop (.declaration stmt) ts
  | statement {room inLoop ts stmt} :
      Forms room inLoop (.statement stmt) ts → Forms room inLoop (.declaration stmt) ts
  | noFunctions {room inLoop} : Forms room inLoop (.functions []) []
  | consFunction {room inLoop ts us function rest} :
      Forms room inLoop (.function function) ts → Forms room inLoop (.functions rest) us →
      Forms room inLoop (.functions (function :: rest)) (ts ++ us)
  | function {room inLoop us ts params body} {name opening closing : Token} :
      name.kind = .identifier → opening.kind = .leftParen → DerivesParameters us params →
      closing.kind = .rightParen → Forms room false (.block body) ts →
      Forms room inLoop (.function (.mk name params body))
        (name :: opening :: us ++ closing :: ts)
  | varDecl {room inLoop ts initial} {word name semicolon : Token} :
      word.kind = .kwVar → name.kind = .identifier → DerivesInitial room ts initial →
      semicolon.kind = .semicolon →
      Forms room inLoop (.varDecl (.varDecl name initial)) (word :: name :: ts ++ [semicolon])
  | exprStmt {room inLoop ts e} {semicolon : Token} :
      Derives room .expression ts e → semicolon.kind = .semicolon →
      Forms room inLoop (.exprStmt (.expression e)) (ts ++ [semicolon])
  | initialDecl {room inLoop ts stmt} :
      Forms room inLoop (.varDecl stmt) ts → Forms room inLoop (.initializer stmt) ts
  | initialExpr {room inLoop ts stmt} :
      Forms room inLoop (.exprStmt stmt) ts → Forms room inLoop (.initializer stmt) ts
  | expression {room inLoop ts stmt} :
      Forms room inLoop (.exprStmt stmt) ts → Forms room inLoop (.statement stmt) ts
  | printStmt {room inLoop ts e} {word semicolon : Token} :
      word.kind = .kwPrint → Derives room .expression ts e → semicolon.kind = .semicolon →
      Forms room inLoop (.statement (.print e)) (word :: ts ++ [semicolon])
  | ifThen {room inLoop ts us condition body} {word opening closing : Token} :
      word.kind = .kwIf → opening.kind = .leftParen → Derives room .expression ts condition →
      closing.kind = .rightParen → Forms room inLoop (.block body) us →
      Forms room inLoop (.statement (.ifThen condition body))
        (word :: opening :: ts ++ closing :: us)
  | ifElse {room inLoop ts us vs condition body alternative}
      {word opening closing other : Token} :
      word.kind = .kwIf → opening.kind = .leftParen → Derives room .expression ts condition →
      closing.kind = .rightParen → Forms room inLoop (.block body) us →
      other.kind = .kwElse → Forms room inLoop (.block alternative) vs →
      Forms room inLoop (.statement (.ifElse condition body alternative))
        (word :: opening :: ts ++ closing :: us ++ other :: vs)
  | whileStmt {room inLoop ts us condition body} {word opening closing : Token} :
      word.kind = .kwWhile → opening.kind = .leftParen → Derives room .expression ts condition →
      closing.kind = .rightParen → Forms room true (.block body) us →
      Forms room inLoop (.statement (.whileLoop condition body none))
        (word :: opening :: ts ++ closing :: us)
  | forStmt {room inLoop ts us vs condition step body}
      {word opening first second closing : Token} :
      word.kind = .kwFor → opening.kind = .leftParen → first.kind = .semicolon →
      DerivesOptional room ts condition → second.kind = .semicolon →
      DerivesOptional room us step → closing.kind = .rightParen →
      Forms room true (.block body) vs →
      Forms room inLoop (.statement (loop condition step body))
        (word :: opening :: first :: ts ++ second :: us ++ closing :: vs)
  | forInitStmt {room inLoop is ts us vs initial condition step body}
      {word opening second closing : Token} :
      word.kind = .kwFor → opening.kind = .leftParen →
      Forms room inLoop (.initializer initial) is →
      DerivesOptional room ts condition → second.kind = .semicolon →
      DerivesOptional room us step → closing.kind = .rightParen →
      Forms room true (.block body) vs →
      Forms room inLoop (.statement (.block [initial, loop condition step body]))
        (word :: opening :: is ++ ts ++ second :: us ++ closing :: vs)
  | returnStmt {room inLoop ts value} {word semicolon : Token} :
      word.kind = .kwReturn → DerivesOptional room ts value → semicolon.kind = .semicolon →
      Forms room inLoop (.statement (.returnValue word value)) (word :: ts ++ [semicolon])
  | breakStmt {room} {word semicolon : Token} :
      word.kind = .kwBreak → semicolon.kind = .semicolon →
      Forms room true (.statement (.breakLoop word)) [word, semicolon]
  | continueStmt {room} {word semicolon : Token} :
      word.kind = .kwContinue → semicolon.kind = .semicolon →
      Forms room true (.statement (.continueLoop word)) [word, semicolon]
  | blockStmt {room inLoop ts body} :
      Forms room inLoop (.block body) ts → Forms room inLoop (.statement (.block body)) ts
  | empty {room inLoop} {semicolon : Token} :
      semicolon.kind = .semicolon → Forms room inLoop (.statement .empty) [semicolon]
  | block {room inLoop ts body} {opening closing : Token} :
      opening.kind = .leftBrace → Forms room inLoop (.declarations body) ts →
      closing.kind = .rightBrace →
      Forms (room + 1) inLoop (.block body) (opening :: ts ++ [closing])

/-- The classes of the tokens with which a statement starts that is no expression. -/
def openers : List Kind :=
  [.kwClass, .kwFun, .kwVar, .kwPrint, .kwIf, .kwWhile, .kwFor, .kwReturn, .kwBreak, .kwContinue,
    .leftBrace, .semicolon]

theorem Forms.exprStmt_head {room inLoop stmt ts} (h : Forms room inLoop (.exprStmt stmt) ts) :
    ∃ t us, ts = t :: us ∧ t.kind ∈ starters := by
  cases h with
  | exprStmt h =>
    obtain ⟨t, us, rfl, ht⟩ := h.head
    exact ⟨t, _, rfl, ht⟩

theorem Forms.block_head {room inLoop body ts} (h : Forms room inLoop (.block body) ts) :
    ∃ t us, ts = t :: us ∧ t.kind = .leftBrace := by
  cases h with
  | block h => exact ⟨_, _, rfl, h⟩

/-- A statement starts as an expression does, or with a token that opens no declaration. -/
theorem Forms.statement_head {room inLoop stmt ts} (h : Forms room inLoop (.statement stmt) ts) :
    ∃ t us, ts = t :: us ∧ (t.kind ∈ starters ∨ t.kind ∈ openers.drop 3) := by
  cases h with
  | expression h =>
    obtain ⟨t, us, rfl, ht⟩ := h.exprStmt_head
    exact ⟨t, us, rfl, .inl ht⟩
  | blockStmt h =>
    obtain ⟨t, us, rfl, ht⟩ := h.block_head
    exact ⟨t, us, rfl, .inr (by simp [ht, openers])⟩
  | printStmt h | ifThen h | ifElse h | whileStmt h | forStmt h | forInitStmt h | returnStmt h
  | breakStmt h | continueStmt h | empty h => exact ⟨_, _, rfl, .inr (by simp [h, openers])⟩

theorem Forms.declaration_head {room inLoop stmt ts}
    (h : Forms room inLoop (.declaration stmt) ts) :
    ∃ t us, ts = t :: us ∧ t.kind ∈ starters ++ openers := by
  cases h with
  | statement h =>
    obtain ⟨t, us, rfl, ht⟩ := h.statement_head
    exact ⟨t, us, rfl, List.mem_append.2 (ht.imp_right List.mem_of_mem_drop)⟩
  | varDeclaration h =>
    cases h with
    | varDecl h => exact ⟨_, _, rfl, by simp [h, starters, openers]⟩
  | classDecl h | funDecl h => exact ⟨_, _, rfl, by simp [h, starters, openers]⟩

theorem Forms.function_head {room inLoop f ts} (h : Forms room inLoop (.function f) ts) :
    ∃ t us, ts = t :: us ∧ t.kind = .identifier := by
  cases h with
  | function h => exact ⟨_, _, rfl, h⟩

/-- The tokens before the end of a source are a program. It may nest 64 levels deep, and no loop
is open around it. -/
def Program (ts : List Token) (body : List Stmt) : Prop := Forms 64 false (.declarations body) ts

end Grammar

end Lox

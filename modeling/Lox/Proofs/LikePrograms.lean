import Lox.Fault
import Lox.Syntax
import Mathlib.Data.List.Forall2
import Mathlib.Tactic

/-!
# Programs that are alike

Two programs are alike if they have the same form and differ only in their tokens, where
those of one are related to those of the other. A name has the same text in both. What
programs may differ in is decided by the relation: equality allows nothing, and a relation
that does not look at lines allows the same program to stand elsewhere.
-/
namespace Lox

variable (T : Token → Token → Prop)

/-- Related tokens with the same text. -/
def Token.SameName (s t : Token) : Prop := T s t ∧ s.lexeme = t.lexeme

/-- Tokens that differ in their lines at most. -/
structure Token.SameText (s t : Token) : Prop where
  kind : s.kind = t.kind
  lexeme : s.lexeme = t.lexeme
  literal : s.literal = t.literal

/-- Expressions that are alike. -/
inductive Expr.Like : Expr → Expr → Prop
  | literal (value : Value) : Like (.literal value) (.literal value)
  | unary {op op' right right'} : T op op' → Like right right' →
      Like (.unary op right) (.unary op' right')
  | binary {left left' op op' right right'} : Like left left' → T op op' → Like right right' →
      Like (.binary left op right) (.binary left' op' right')
  | logical {left left' op op' right right'} : Like left left' → T op op' → Like right right' →
      Like (.logical left op right) (.logical left' op' right')
  | grouping {inner inner'} : Like inner inner' → Like (.grouping inner) (.grouping inner')
  | ident {name name'} : name.SameName T name' → Like (.ident name) (.ident name')
  | assign {name name' value value'} : name.SameName T name' → Like value value' →
      Like (.assign name value) (.assign name' value')

/-- Expressions that are alike, or both missing. -/
abbrev Expr.LikeOptional : Option Expr → Option Expr → Prop := Option.Rel (Expr.Like T)

mutual

/-- Statements that are alike. -/
inductive Stmt.Like : Stmt → Stmt → Prop
  | expression {e e'} : e.Like T e' → Stmt.Like (.expression e) (.expression e')
  | print {e e'} : e.Like T e' → Stmt.Like (.print e) (.print e')
  | varDecl {name name' initial initial'} : name.SameName T name' →
      Expr.LikeOptional T initial initial' →
      Stmt.Like (.varDecl name initial) (.varDecl name' initial')
  | block {body body'} : List.Forall₂ Stmt.Like body body' →
      Stmt.Like (.block body) (.block body')
  | ifThen {condition condition' body body'} : condition.Like T condition' →
      List.Forall₂ Stmt.Like body body' →
      Stmt.Like (.ifThen condition body) (.ifThen condition' body')
  | ifElse {condition condition' body body' alternative alternative'} :
      condition.Like T condition' → List.Forall₂ Stmt.Like body body' →
      List.Forall₂ Stmt.Like alternative alternative' →
      Stmt.Like (.ifElse condition body alternative) (.ifElse condition' body' alternative')
  | whileLoop {condition condition' body body' step step'} : condition.Like T condition' →
      List.Forall₂ Stmt.Like body body' → Expr.LikeOptional T step step' →
      Stmt.Like (.whileLoop condition body step) (.whileLoop condition' body' step')
  | functionDecl {function function'} : Function.Like function function' →
      Stmt.Like (.functionDecl function) (.functionDecl function')
  | returnValue {keyword keyword' value value'} : T keyword keyword' →
      Expr.LikeOptional T value value' →
      Stmt.Like (.returnValue keyword value) (.returnValue keyword' value')
  | classDecl {name name' superclass superclass' methods methods'} : name.SameName T name' →
      Option.Rel (Token.SameName T) superclass superclass' →
      List.Forall₂ Function.Like methods methods' →
      Stmt.Like (.classDecl name superclass methods) (.classDecl name' superclass' methods')
  | breakLoop {keyword keyword'} : T keyword keyword' →
      Stmt.Like (.breakLoop keyword) (.breakLoop keyword')
  | continueLoop {keyword keyword'} : T keyword keyword' →
      Stmt.Like (.continueLoop keyword) (.continueLoop keyword')
  | empty : Stmt.Like .empty .empty
  | error {token token'} (message : String) : T token token' →
      Stmt.Like (.error token message) (.error token' message)

/-- Functions that are alike. -/
inductive Function.Like : Function → Function → Prop
  | mk {name name' params params' body body'} : name.SameName T name' →
      List.Forall₂ (Token.SameName T) params params' → List.Forall₂ Stmt.Like body body' →
      Function.Like (.mk name params body) (.mk name' params' body')

end

/-- Programs that are alike. -/
abbrev Stmt.LikeAll : List Stmt → List Stmt → Prop := List.Forall₂ (Stmt.Like T)

/-- Faults that are alike. -/
inductive Fault.Like : Fault → Fault → Prop
  | undefined (name : String) : Like (.undefined name) (.undefined name)
  | condition (type : ValueType) : Like (.condition type) (.condition type)
  | logicalOperand {op op'} (type : ValueType) : T op op' →
      Like (.logicalOperand op type) (.logicalOperand op' type)
  | negatedOperand {op op'} (type : ValueType) : T op op' →
      Like (.negatedOperand op type) (.negatedOperand op' type)
  | invertedOperand {op op'} (type : ValueType) : T op op' →
      Like (.invertedOperand op type) (.invertedOperand op' type)
  | numericOperands {op op'} (left right : ValueType) : T op op' →
      Like (.numericOperands op left right) (.numericOperands op' left right)
  | divisionByZero {op op'} : T op op' → Like (.divisionByZero op) (.divisionByZero op')
  | unaryOperator {op op'} : T op op' → Like (.unaryOperator op) (.unaryOperator op')
  | binaryOperator {op op'} : T op op' → Like (.binaryOperator op) (.binaryOperator op')
  | functionDecl {name name'} : name.SameName T name' →
      Like (.functionDecl name) (.functionDecl name')
  | classDecl {name name'} : name.SameName T name' → Like (.classDecl name) (.classDecl name')
  | returnValue {keyword keyword'} : T keyword keyword' →
      Like (.returnValue keyword) (.returnValue keyword')

/-! ### Heights -/

section Heights

variable {T}

theorem Expr.Like.height_eq {e e' : Expr} (h : e.Like T e') : e.height = e'.height := by
  induction h with
  | literal | ident => rfl
  | unary _ _ ih => rw [height, height, ih]
  | binary _ _ _ ihl ihr | logical _ _ _ ihl ihr => rw [height, height, ihl, ihr]
  | grouping _ ih => rw [height, height, ih]
  | assign _ _ ih => rw [height, height, ih]

theorem Expr.heightOf?_eq {o o' : Option Expr} (h : LikeOptional T o o') :
    heightOf? o = heightOf? o' := by
  cases h with
  | none => rfl
  | some h => exact h.height_eq

mutual

theorem Stmt.height_eq (stmt : Stmt) {stmt' : Stmt} (h : stmt.Like T stmt') :
    stmt.height = stmt'.height := by
  cases h with
  | expression h | print h => rw [Stmt.height, Stmt.height, h.height_eq]
  | varDecl _ h => rw [Stmt.height, Stmt.height, Expr.heightOf?_eq h]
  | @block body _ h => rw [Stmt.height, Stmt.height, Stmt.heightAll_eq body h]
  | @ifThen _ _ body _ hcondition h =>
    rw [Stmt.height, Stmt.height, hcondition.height_eq, Stmt.heightAll_eq body h]
  | @ifElse _ _ body _ alternative _ hcondition h halternative =>
    rw [Stmt.height, Stmt.height, hcondition.height_eq, Stmt.heightAll_eq body h,
      Stmt.heightAll_eq alternative halternative]
  | @whileLoop _ _ body _ _ _ hcondition h hstep =>
    rw [Stmt.height, Stmt.height, hcondition.height_eq, Stmt.heightAll_eq body h,
      Expr.heightOf?_eq hstep]
  | @functionDecl function _ h => exact Function.height_eq function h
  | returnValue _ h => rw [Stmt.height, Stmt.height, Expr.heightOf?_eq h]
  | @classDecl _ _ _ _ methods _ _ _ h =>
    rw [Stmt.height, Stmt.height, Function.heightAll_eq methods h]
  | breakLoop | continueLoop | empty | error => rfl

theorem Stmt.heightAll_eq (body : List Stmt) {body' : List Stmt} (h : Stmt.LikeAll T body body') :
    Stmt.heightAll body = Stmt.heightAll body' := by
  cases h with
  | nil => rfl
  | @cons stmt _ rest _ hstmt hrest =>
    rw [Stmt.heightAll, Stmt.heightAll, Stmt.height_eq stmt hstmt, Stmt.heightAll_eq rest hrest]

theorem Function.height_eq (function : Function) {function' : Function}
    (h : function.Like T function') : function.height = function'.height := by
  cases h with
  | @mk _ _ _ _ body _ _ _ h => rw [Function.height, Function.height, Stmt.heightAll_eq body h]

theorem Function.heightAll_eq (functions : List Function) {functions' : List Function}
    (h : List.Forall₂ (Function.Like T) functions functions') :
    Function.heightAll functions = Function.heightAll functions' := by
  cases h with
  | nil => rfl
  | @cons function _ rest _ hfunction hrest =>
    rw [Function.heightAll, Function.heightAll, Function.height_eq function hfunction,
      Function.heightAll_eq rest hrest]

end

end Heights

/-! ### What equality allows -/

theorem Token.sameName_rfl (t : Token) : t.SameName Eq t := ⟨rfl, rfl⟩

theorem Expr.like_rfl (e : Expr) : e.Like Eq e := by
  induction e with
  | literal value => exact .literal value
  | unary op right ih => exact .unary rfl ih
  | binary left op right ihl ihr => exact .binary ihl rfl ihr
  | logical left op right ihl ihr => exact .logical ihl rfl ihr
  | grouping inner ih => exact .grouping ih
  | ident name => exact .ident name.sameName_rfl
  | assign name value ih => exact .assign name.sameName_rfl ih

theorem Expr.likeOptional_rfl (o : Option Expr) : LikeOptional Eq o o := by
  cases o with
  | none => exact .none
  | some e => exact .some e.like_rfl

mutual

theorem Stmt.like_rfl (stmt : Stmt) : stmt.Like Eq stmt := by
  cases stmt with
  | expression e => exact .expression e.like_rfl
  | print e => exact .print e.like_rfl
  | varDecl name initial => exact .varDecl name.sameName_rfl (Expr.likeOptional_rfl initial)
  | block body => exact .block (Stmt.likeAll_rfl body)
  | ifThen condition body => exact .ifThen condition.like_rfl (Stmt.likeAll_rfl body)
  | ifElse condition body alternative =>
    exact .ifElse condition.like_rfl (Stmt.likeAll_rfl body) (Stmt.likeAll_rfl alternative)
  | whileLoop condition body step =>
    exact .whileLoop condition.like_rfl (Stmt.likeAll_rfl body) (Expr.likeOptional_rfl step)
  | functionDecl function => exact .functionDecl (Function.like_rfl function)
  | returnValue keyword value => exact .returnValue rfl (Expr.likeOptional_rfl value)
  | classDecl name superclass methods =>
    refine .classDecl name.sameName_rfl ?_ (Function.likeAll_rfl methods)
    cases superclass with
    | none => exact .none
    | some parent => exact .some parent.sameName_rfl
  | breakLoop keyword => exact .breakLoop rfl
  | continueLoop keyword => exact .continueLoop rfl
  | empty => exact .empty
  | error token message => exact .error message rfl

theorem Stmt.likeAll_rfl (body : List Stmt) : Stmt.LikeAll Eq body body := by
  cases body with
  | nil => exact .nil
  | cons stmt rest => exact .cons (Stmt.like_rfl stmt) (Stmt.likeAll_rfl rest)

theorem Function.like_rfl (function : Function) : function.Like Eq function := by
  cases function with
  | mk name params body =>
    exact .mk name.sameName_rfl (List.forall₂_same.2 fun p _ => p.sameName_rfl)
      (Stmt.likeAll_rfl body)

theorem Function.likeAll_rfl (functions : List Function) :
    List.Forall₂ (Function.Like Eq) functions functions := by
  cases functions with
  | nil => exact .nil
  | cons function rest => exact .cons (Function.like_rfl function) (Function.likeAll_rfl rest)

end

theorem Fault.Like.eq {fault fault' : Fault} (h : fault.Like Eq fault') : fault = fault' := by
  cases h with
  | undefined | condition => rfl
  | functionDecl h | classDecl h => rw [h.1]
  | _ => simp_all

end Lox

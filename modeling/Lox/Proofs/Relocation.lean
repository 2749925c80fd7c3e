import Lox.Proofs.Grammar
import Lox.Proofs.LikePrograms

/-!
# Programs on other lines

A relocation changes the lines of tokens and nothing else. It carries over from
tokens to expressions and statements, which are then alike. The grammar does not look at
lines, so relocated tokens stand for the relocated program, and no message about a fault
mentions a line.
-/
namespace Lox

/-- A change of tokens that keeps all but their lines. -/
structure Relocation where
  move : Token → Token
  kind_move : ∀ t, (move t).kind = t.kind
  lexeme_move : ∀ t, (move t).lexeme = t.lexeme
  literal_move : ∀ t, (move t).literal = t.literal

namespace Relocation

attribute [simp] kind_move lexeme_move literal_move

@[simp] theorem payload_move (r : Relocation) (t : Token) : (r.move t).payload = t.payload := by
  simp [Token.payload]

/-- Every token comes `lines` further down. -/
def down (lines : Nat) : Relocation :=
  ⟨fun t => { t with line := t.line + lines }, fun _ => rfl, fun _ => rfl, fun _ => rfl⟩

theorem sameText_move (r : Relocation) (t : Token) : t.SameText (r.move t) :=
  ⟨(r.kind_move t).symm, (r.lexeme_move t).symm, (r.literal_move t).symm⟩

theorem sameName_move (r : Relocation) (t : Token) : t.SameName Token.SameText (r.move t) :=
  ⟨r.sameText_move t, (r.lexeme_move t).symm⟩

end Relocation

/-- An expression with its tokens moved. -/
def Expr.relocate (r : Relocation) : Expr → Expr
  | literal value => literal value
  | unary op right => unary (r.move op) (right.relocate r)
  | binary left op right => binary (left.relocate r) (r.move op) (right.relocate r)
  | logical left op right => logical (left.relocate r) (r.move op) (right.relocate r)
  | grouping inner => grouping (inner.relocate r)
  | ident name => ident (r.move name)
  | assign name value => assign (r.move name) (value.relocate r)

mutual

/-- A statement with its tokens moved. -/
def Stmt.relocate (r : Relocation) : Stmt → Stmt
  | .expression e => .expression (e.relocate r)
  | .print e => .print (e.relocate r)
  | .varDecl name initial => .varDecl (r.move name) (initial.map (Expr.relocate r))
  | .block body => .block (Stmt.relocateAll r body)
  | .ifThen condition body => .ifThen (condition.relocate r) (Stmt.relocateAll r body)
  | .ifElse condition body alternative =>
    .ifElse (condition.relocate r) (Stmt.relocateAll r body) (Stmt.relocateAll r alternative)
  | .whileLoop condition body step =>
    .whileLoop (condition.relocate r) (Stmt.relocateAll r body) (step.map (Expr.relocate r))
  | .functionDecl function => .functionDecl (function.relocate r)
  | .returnValue keyword value =>
    .returnValue (r.move keyword) (value.map (Expr.relocate r))
  | .classDecl name superclass methods =>
    .classDecl (r.move name) (superclass.map r.move) (Function.relocateAll r methods)
  | .breakLoop keyword => .breakLoop (r.move keyword)
  | .continueLoop keyword => .continueLoop (r.move keyword)
  | .empty => .empty
  | .error token message => .error (r.move token) message

/-- Statements with their tokens moved. -/
def Stmt.relocateAll (r : Relocation) : List Stmt → List Stmt
  | [] => []
  | stmt :: rest => stmt.relocate r :: Stmt.relocateAll r rest

/-- A function with its tokens moved. -/
def Function.relocate (r : Relocation) : Function → Function
  | .mk name params body => .mk (r.move name) (params.map r.move) (Stmt.relocateAll r body)

/-- Functions with their tokens moved. -/
def Function.relocateAll (r : Relocation) : List Function → List Function
  | [] => []
  | function :: rest => function.relocate r :: Function.relocateAll r rest

end

/-! ### Relocated programs are alike -/

section Like

variable (r : Relocation)

theorem Expr.like_relocate (e : Expr) : e.Like Token.SameText (e.relocate r) := by
  induction e with
  | literal value => exact .literal value
  | unary op right ih => exact .unary (r.sameText_move op) ih
  | binary left op right ihl ihr => exact .binary ihl (r.sameText_move op) ihr
  | logical left op right ihl ihr => exact .logical ihl (r.sameText_move op) ihr
  | grouping inner ih => exact .grouping ih
  | ident name => exact .ident (r.sameName_move name)
  | assign name value ih => exact .assign (r.sameName_move name) ih

theorem Expr.likeOptional_relocate (o : Option Expr) :
    LikeOptional Token.SameText o (o.map (Expr.relocate r)) := by
  cases o with
  | none => exact .none
  | some e => exact .some (e.like_relocate r)

mutual

theorem Stmt.like_relocate (stmt : Stmt) : stmt.Like Token.SameText (stmt.relocate r) := by
  cases stmt with
  | expression e => exact .expression (e.like_relocate r)
  | print e => exact .print (e.like_relocate r)
  | varDecl name initial =>
    exact .varDecl (r.sameName_move name) (Expr.likeOptional_relocate r initial)
  | block body => exact .block (Stmt.likeAll_relocate body)
  | ifThen condition body =>
    exact .ifThen (condition.like_relocate r) (Stmt.likeAll_relocate body)
  | ifElse condition body alternative =>
    exact .ifElse (condition.like_relocate r) (Stmt.likeAll_relocate body)
      (Stmt.likeAll_relocate alternative)
  | whileLoop condition body step =>
    exact .whileLoop (condition.like_relocate r) (Stmt.likeAll_relocate body)
      (Expr.likeOptional_relocate r step)
  | functionDecl function => exact .functionDecl (Function.like_relocate function)
  | returnValue keyword value =>
    exact .returnValue (r.sameText_move keyword) (Expr.likeOptional_relocate r value)
  | classDecl name superclass methods =>
    refine .classDecl (r.sameName_move name) ?_ (Function.likeAll_relocate methods)
    cases superclass with
    | none => exact .none
    | some parent => exact .some (r.sameName_move parent)
  | breakLoop keyword => exact .breakLoop (r.sameText_move keyword)
  | continueLoop keyword => exact .continueLoop (r.sameText_move keyword)
  | empty => exact .empty
  | error token message => exact .error message (r.sameText_move token)

theorem Stmt.likeAll_relocate (body : List Stmt) :
    Stmt.LikeAll Token.SameText body (Stmt.relocateAll r body) := by
  cases body with
  | nil => exact .nil
  | cons stmt rest => exact .cons (Stmt.like_relocate stmt) (Stmt.likeAll_relocate rest)

theorem Function.like_relocate (function : Function) :
    function.Like Token.SameText (function.relocate r) := by
  cases function with
  | mk name params body =>
    refine .mk (r.sameName_move name) ?_ (Stmt.likeAll_relocate body)
    exact List.forall₂_map_right_iff.2 (List.forall₂_same.2 fun p _ => r.sameName_move p)

theorem Function.likeAll_relocate (functions : List Function) :
    List.Forall₂ (Function.Like Token.SameText) functions (Function.relocateAll r functions) := by
  cases functions with
  | nil => exact .nil
  | cons function rest =>
    exact .cons (Function.like_relocate function) (Function.likeAll_relocate rest)

end

end Like

/-- Messages mention no line. -/
theorem Fault.Like.message_eq {fault fault' : Fault} (h : fault.Like Token.SameText fault') :
    fault'.message = fault.message := by
  cases h with
  | logicalOperand _ h | numericOperands _ _ h | unaryOperator h | binaryOperator h =>
    unfold message
    dsimp only
    rw [h.lexeme]
  | functionDecl h | classDecl h =>
    unfold message
    dsimp only
    rw [h.2]
  | _ => rfl

namespace Grammar

variable {room : Nat} {inLoop : Bool} {ts : List Token} (r : Relocation)

theorem Tier.join_relocate (t : Tier) (left right : Expr) (op : Token) :
    (t.join left op right).relocate r =
      t.join (left.relocate r) (r.move op) (right.relocate r) := by
  cases t <;> rfl

/-- Relocated tokens stand for the relocated expression. -/
theorem Derives.relocate {symbol : Symbol} {e : Expr} (h : Derives room symbol ts e) :
    Derives room symbol (ts.map r.move) (e.relocate r) := by
  induction h with
  | expression _ ih => exact .expression ih
  | assign hname hequals _ ih => exact .assign (by simpa) (by simpa) ih
  | operation _ ih => exact .operation ih
  | single _ ih => exact .single ih
  | @join _ t _ _ _ _ _ _ hop _ ihl ihr =>
    rw [t.join_relocate r, List.map_append]
    exact .join ihl (by simpa) ihr
  | unary hop _ ih => exact .unary (by simpa) ih
  | primary _ ih => exact .primary ih
  | @number _ token h =>
    rw [← r.payload_move token]
    exact .number (by simpa)
  | @string _ token h =>
    rw [← r.payload_move token]
    exact .string (by simpa)
  | true h => exact .true (by simpa)
  | false h => exact .false (by simpa)
  | nil h => exact .nil (by simpa)
  | ident h => exact .ident (by simpa)
  | grouping ho _ hc ih =>
    rw [List.map_append]
    exact .grouping (by simpa) ih (by simpa)

theorem DerivesOptional.relocate {o : Option Expr} (h : DerivesOptional room ts o) :
    DerivesOptional room (ts.map r.move) (o.map (Expr.relocate r)) := by
  cases o with
  | none =>
    obtain rfl : ts = [] := h
    rfl
  | some e => exact Derives.relocate r h

theorem DerivesInitial.relocate {o : Option Expr} (h : DerivesInitial room ts o) :
    DerivesInitial room (ts.map r.move) (o.map (Expr.relocate r)) := by
  cases h with
  | none => exact .none
  | some hequals h => exact .some (by simpa) (h.relocate r)

theorem DerivesSuperclass.relocate {o : Option Token} (h : DerivesSuperclass ts o) :
    DerivesSuperclass (ts.map r.move) (o.map r.move) := by
  cases h with
  | none => exact .none
  | some hless hname => exact .some (by simpa) (by simpa)

theorem DerivesNames.relocate {names : List Token} (h : DerivesNames ts names) :
    DerivesNames (ts.map r.move) (names.map r.move) := by
  induction h with
  | one hname => exact .one (by simpa)
  | more hname hcomma _ ih => exact .more (by simpa) (by simpa) ih

theorem DerivesParameters.relocate {params : List Token} (h : DerivesParameters ts params) :
    DerivesParameters (ts.map r.move) (params.map r.move) := by
  rcases h with ⟨rfl, rfl⟩ | ⟨h, hle⟩
  · exact .inl ⟨rfl, rfl⟩
  · exact .inr ⟨h.relocate r, by simpa⟩

/-- What a relocated phrase stands for. -/
def Phrase.relocate : Phrase → Phrase
  | declarations body => declarations (Stmt.relocateAll r body)
  | declaration stmt => declaration (stmt.relocate r)
  | statement stmt => statement (stmt.relocate r)
  | varDecl stmt => varDecl (stmt.relocate r)
  | exprStmt stmt => exprStmt (stmt.relocate r)
  | initializer stmt => initializer (stmt.relocate r)
  | block body => block (Stmt.relocateAll r body)
  | function f => function (f.relocate r)
  | functions fs => functions (Function.relocateAll r fs)

theorem loop_relocate (condition step : Option Expr) (body : List Stmt) :
    (loop condition step body).relocate r =
      loop (condition.map (Expr.relocate r)) (step.map (Expr.relocate r))
        (Stmt.relocateAll r body) := by
  cases condition <;> rfl

/-- Relocated tokens are the relocated phrase. -/
theorem Forms.relocate {phrase : Phrase} (h : Forms room inLoop phrase ts) :
    Forms room inLoop (phrase.relocate r) (ts.map r.move) := by
  induction h with
  | nil => exact .nil
  | cons _ _ ih ihr =>
    rw [List.map_append]
    exact .cons ih ihr
  | classDecl hword hname hparent hopening _ hclosing ih =>
    simp only [List.map_append, List.map_cons]
    exact .classDecl (by simpa) (by simpa) (hparent.relocate r) (by simpa) ih (by simpa)
  | funDecl hword _ ih => exact .funDecl (by simpa) ih
  | varDeclaration _ ih => exact .varDeclaration ih
  | statement _ ih => exact .statement ih
  | noFunctions => exact .noFunctions
  | consFunction _ _ ih ihr =>
    rw [List.map_append]
    exact .consFunction ih ihr
  | function hname hopening hparams hclosing _ ih =>
    simp only [List.map_append, List.map_cons]
    exact .function (by simpa) (by simpa) (hparams.relocate r) (by simpa) ih
  | varDecl hword hname hinitial hsemicolon =>
    simp only [List.map_append, List.map_cons]
    exact .varDecl (by simpa) (by simpa) (hinitial.relocate r) (by simpa)
  | exprStmt h hsemicolon =>
    simp only [List.map_append, List.map_cons]
    exact .exprStmt (h.relocate r) (by simpa)
  | initialDecl _ ih => exact .initialDecl ih
  | initialExpr _ ih => exact .initialExpr ih
  | expression _ ih => exact .expression ih
  | printStmt hword h hsemicolon =>
    simp only [List.map_append, List.map_cons]
    exact .printStmt (by simpa) (h.relocate r) (by simpa)
  | ifThen hword hopening h hclosing _ ih =>
    simp only [List.map_append, List.map_cons]
    exact .ifThen (by simpa) (by simpa) (h.relocate r) (by simpa) ih
  | ifElse hword hopening h hclosing _ hother _ ih iha =>
    simp only [List.map_append, List.map_cons]
    exact .ifElse (by simpa) (by simpa) (h.relocate r) (by simpa) ih (by simpa) iha
  | whileStmt hword hopening h hclosing _ ih =>
    simp only [List.map_append, List.map_cons]
    exact .whileStmt (by simpa) (by simpa) (h.relocate r) (by simpa) ih
  | forStmt hword hopening hfirst hcond hsecond hstep hclosing _ ih =>
    simp only [List.map_append, List.map_cons, Phrase.relocate, loop_relocate]
    exact .forStmt (by simpa) (by simpa) (by simpa) (hcond.relocate r) (by simpa)
      (hstep.relocate r) (by simpa) ih
  | forInitStmt hword hopening _ hcond hsecond hstep hclosing _ ihi ih =>
    simp only [List.map_append, List.map_cons, Phrase.relocate, Stmt.relocate, Stmt.relocateAll,
      loop_relocate]
    exact .forInitStmt (by simpa) (by simpa) ihi (hcond.relocate r) (by simpa) (hstep.relocate r)
      (by simpa) ih
  | returnStmt hword h hsemicolon =>
    simp only [List.map_append, List.map_cons]
    exact .returnStmt (by simpa) (h.relocate r) (by simpa)
  | breakStmt hword hsemicolon => exact .breakStmt (by simpa) (by simpa)
  | continueStmt hword hsemicolon => exact .continueStmt (by simpa) (by simpa)
  | blockStmt _ ih => exact .blockStmt ih
  | empty hsemicolon => exact .empty (by simpa)
  | block hopening _ hclosing ih =>
    simp only [List.map_append, List.map_cons]
    exact .block (by simpa) ih (by simpa)

/-- Two programs in a row are a program. -/
theorem Forms.append {first second : List Stmt} {us : List Token}
    (h : Forms room inLoop (.declarations first) ts)
    (h' : Forms room inLoop (.declarations second) us) :
    Forms room inLoop (.declarations (first ++ second)) (ts ++ us) := by
  generalize hphrase : Phrase.declarations first = phrase at h
  induction h generalizing first with
  | nil =>
    cases hphrase
    exact h'
  | cons hd _ _ ihr =>
    cases hphrase
    rw [List.append_assoc]
    exact .cons hd (ihr h' rfl)
  | _ => cases hphrase

end Grammar

end Lox

import Lox.Proofs.NameSets

/-!
# Parts of programs and the names in scope there

A position is the way from a program to one of its parts. The text alone tells which
names each enclosing block has declared before a position. A run reaches a part on a
machine if it calls for its execution or evaluation with that machine; a part may be
reached many times, in the rounds of a loop. Whenever a part is reached, the names in
scope are those that the text tells.
-/
namespace Lox

/-- A part of a program, the statements of a block, a statement or an expression, with the room that
it is given. -/
inductive Node where
  | body (room : Nat) (stmts : List Stmt)
  | stmt (room : Nat) (stmt : Stmt)
  | expr (room : Nat) (e : Expr)

/-- The way from a part to one directly inside it. -/
inductive Turn where
  | item (index : Nat)
  | block
  | alternative
  | condition
  | step
  | value
  | left
  | right

namespace Node

/-- The part directly inside a part, with what is left of the room. -/
def child? : Node → Turn → Option Node
  | body room stmts, .item index => stmts[index]?.map (stmt room)
  | stmt (room + 1) (.expression e), .value => some (expr room e)
  | stmt (room + 1) (.print e), .value => some (expr room e)
  | stmt (room + 1) (.varDecl _ (some e)), .value => some (expr room e)
  | stmt (room + 2) (.block inner), .block => some (body room inner)
  | stmt (room + 2) (.ifThen e _), .condition => some (expr room e)
  | stmt (room + 3) (.ifThen _ inner), .block => some (body room inner)
  | stmt (room + 2) (.ifElse e _ _), .condition => some (expr room e)
  | stmt (room + 3) (.ifElse _ inner _), .block => some (body room inner)
  | stmt (room + 3) (.ifElse _ _ inner), .alternative => some (body room inner)
  | stmt (room + 2) (.whileLoop e _ _), .condition => some (expr room e)
  | stmt (room + 3) (.whileLoop _ inner _), .block => some (body room inner)
  | stmt (room + 1) (.whileLoop _ _ (some e)), .step => some (expr room e)
  | expr (room + 1) (.grouping e), .right => some (expr room e)
  | expr (room + 1) (.assign _ e), .right => some (expr room e)
  | expr (room + 1) (.unary _ e), .right => some (expr room e)
  | expr (room + 1) (.binary e _ _), .left => some (expr room e)
  | expr (room + 1) (.binary _ _ e), .right => some (expr room e)
  | expr (room + 2) (.logical e _ _), .left => some (expr room e)
  | expr (room + 2) (.logical _ _ e), .right => some (expr room e)
  | _, _ => none

/-- The names in scope at a part directly inside a part where `sets` are in scope. Blocks start
without names and go on with those of the declarations before a statement. -/
def setsAt (sets : List (Finset String)) : Node → Turn → List (Finset String)
  | body _ stmts, .item index => declare (Stmt.declaredIn (stmts.take index)) sets
  | _, .block => ∅ :: sets
  | _, .alternative => ∅ :: sets
  | _, _ => sets

/-- The part at a position and the names in scope there, by the text alone. -/
def locate : Node → List (Finset String) → List Turn → Option (Node × List (Finset String))
  | node, sets, [] => some (node, sets)
  | node, sets, turn :: path => match node.child? turn with
    | some child => child.locate (node.setsAt sets turn) path
    | none => none

end Node

/-- Opens the scope of a block. -/
def Exec.enterBlock (settings : Settings) (room : Nat) : Exec Unit :=
  form settings room "Block" fun room => call room fun room => enterScope settings room

/-- A loop that starts on one machine comes to test its condition on another, when so many rounds
are left. -/
inductive Exec.AtHead (condition : Exec Bool) (body step : Exec Unit) :
    Nat → Machine → Nat → Machine → Prop where
  | start {rounds machine} : AtHead condition body step rounds machine rounds machine
  | again {rounds left first tested ran stepped last} :
    condition first = .ok true tested → Exec.round body tested = .ok true ran →
      step ran = .ok () stepped → AtHead condition body step rounds stepped left last →
        AtHead condition body step (rounds + 1) first left last

/-- The head of a loop statement. -/
abbrev Stmt.AtHead (settings : Settings) (room : Nat) (condition : Expr) (body : List Stmt)
    (step : Option Expr) (machine head : Machine) : Prop :=
  ∃ logged left, Exec.log settings room (.execute "While") machine = .ok () logged ∧
    Exec.AtHead (Exec.condition settings room condition)
      (Exec.block settings room fun room => Stmt.executeAll settings room body)
      (Exec.optional settings room step) settings.rounds logged (left + 1) head

/-- Running a part on one machine calls for a part directly inside it on another machine. -/
inductive Calls (settings : Settings) : Node → Turn → Machine → Machine → Prop where
  | item {room stmts index first before} :
    Stmt.executeAll settings room (stmts.take index) first = .ok () before →
      Calls settings (.body room stmts) (.item index) first before
  | expression {room e machine logged} :
    Exec.log settings room (.execute "Expression") machine = .ok () logged →
      Calls settings (.stmt (room + 1) (.expression e)) .value machine logged
  | print {room e machine logged} :
    Exec.log settings room (.execute "Print") machine = .ok () logged →
      Calls settings (.stmt (room + 1) (.print e)) .value machine logged
  | initial {room name e machine logged} :
    Exec.log settings room (.execute "Var") machine = .ok () logged →
      Calls settings (.stmt (room + 1) (.varDecl name e)) .value machine logged
  | block {room inner machine entered} :
    Exec.enterBlock settings room machine = .ok () entered →
      Calls settings (.stmt room (.block inner)) .block machine entered
  | thenCondition {room e inner machine logged} :
    Exec.log settings room (.execute "If") machine = .ok () logged →
      Calls settings (.stmt (room + 1) (.ifThen e inner)) .condition machine logged
  | thenBlock {room e inner machine logged tested noted entered} :
    Exec.log settings room (.execute "If") machine = .ok () logged →
      Exec.condition settings room e logged = .ok true tested →
        Exec.log settings room (.branch true) tested = .ok () noted →
          Exec.enterBlock settings room noted = .ok () entered →
            Calls settings (.stmt (room + 1) (.ifThen e inner)) .block machine entered
  | elseCondition {room e inner alternative machine logged} :
    Exec.log settings room (.execute "If") machine = .ok () logged →
      Calls settings (.stmt (room + 1) (.ifElse e inner alternative)) .condition machine logged
  | elseBlock {room e inner alternative machine logged tested noted entered} :
    Exec.log settings room (.execute "If") machine = .ok () logged →
      Exec.condition settings room e logged = .ok true tested →
        Exec.log settings room (.branch true) tested = .ok () noted →
          Exec.enterBlock settings room noted = .ok () entered →
            Calls settings (.stmt (room + 1) (.ifElse e inner alternative)) .block machine entered
  | elseAlternative {room e inner alternative machine logged tested noted entered} :
    Exec.log settings room (.execute "If") machine = .ok () logged →
      Exec.condition settings room e logged = .ok false tested →
        Exec.log settings room (.branch false) tested = .ok () noted →
          Exec.enterBlock settings room noted = .ok () entered →
            Calls settings (.stmt (room + 1) (.ifElse e inner alternative)) .alternative machine
              entered
  | loopCondition {room e inner step machine head} :
    Stmt.AtHead settings room e inner step machine head →
      Calls settings (.stmt (room + 1) (.whileLoop e inner step)) .condition machine head
  | loopBlock {room e inner step machine head tested entered} :
    Stmt.AtHead settings room e inner step machine head →
      Exec.condition settings room e head = .ok true tested →
        Exec.enterBlock settings room tested = .ok () entered →
          Calls settings (.stmt (room + 1) (.whileLoop e inner step)) .block machine entered
  | loopStep {room e inner step machine head tested ran} :
    Stmt.AtHead settings room e inner step machine head →
      Exec.condition settings room e head = .ok true tested →
        Exec.round (Exec.block settings room fun room => Stmt.executeAll settings room inner)
            tested = .ok true ran →
          Calls settings (.stmt (room + 1) (.whileLoop e inner step)) .step machine ran
  | grouping {room e machine} :
    Calls settings (.expr (room + 1) (.grouping e)) .right machine machine
  | assign {room name e machine} :
    Calls settings (.expr (room + 1) (.assign name e)) .right machine machine
  | unary {room op e machine} :
    Calls settings (.expr (room + 1) (.unary op e)) .right machine machine
  | binaryLeft {room left op right machine} :
    Calls settings (.expr (room + 1) (.binary left op right)) .left machine machine
  | binaryRight {room left op right machine value between} :
    left.evaluate settings room machine = .ok value between →
      Calls settings (.expr (room + 1) (.binary left op right)) .right machine between
  | logicalLeft {room left op right machine} :
    Calls settings (.expr (room + 2) (.logical left op right)) .left machine machine
  | logicalRight {room left op right machine value truth between} :
    left.evaluate settings room machine = .ok value between →
      Operator.truth op value = .ok truth → Operator.goesOn op truth = true →
        Calls settings (.expr (room + 2) (.logical left op right)) .right machine between

/-- Running a part on one machine comes to run the part at a position on another machine. -/
inductive Reaches (settings : Settings) : Node → Machine → List Turn → Node → Machine → Prop where
  | here {node machine} : Reaches settings node machine [] node machine
  | inside {node child last : Node} {turn path} {first middle machine : Machine} :
    node.child? turn = some child → Calls settings node turn first middle →
      Reaches settings child middle path last machine →
        Reaches settings node first (turn :: path) last machine

open Exec

variable {settings : Settings}

theorem Exec.nameSets_of_log {room : Nat} {entry : Entry} {machine final : Machine}
    (h : log settings room entry machine = .ok () final) :
    final.environment.nameSets = machine.environment.nameSets := (steady_log settings room entry).ok h

theorem Exec.nameSets_of_enterBlock {room : Nat} {machine final : Machine}
    (h : enterBlock settings room machine = .ok () final) :
    final.environment.nameSets = ∅ :: machine.environment.nameSets := by
  obtain ⟨rest, rfl, h⟩ := call_eq_ok.1 h
  obtain ⟨_, logged, hlog, h⟩ := bind_eq_ok.1 h
  obtain ⟨inner, rfl, h⟩ := call_eq_ok.1 h
  rw [nameSets_of_enterScope settings h, nameSets_of_log hlog]

/-- The rounds of a loop leave no names behind. -/
theorem Exec.AtHead.nameSets_eq {condition : Exec Bool} {body step : Exec Unit}
    {rounds left : Nat} {first last : Machine} (hcondition : Steady condition)
    (hbody : Steady body) (hstep : Steady step)
    (h : AtHead condition body step rounds first left last) :
    last.environment.nameSets = first.environment.nameSets := by
  induction h with
  | start => rfl
  | again htested hran hstepped _ ih =>
    rw [ih, hstep.ok hstepped, hbody.round.ok hran, hcondition.ok htested]

theorem Exec.steady_body (room : Nat) (body : List Stmt) :
    Steady (Exec.block settings room fun room => Stmt.executeAll settings room body) :=
  .block settings (fun room => Stmt.declares_executeAll settings room body) room

theorem Stmt.AtHead.nameSets_eq {room : Nat} {condition : Expr} {body : List Stmt}
    {step : Option Expr} {machine head : Machine}
    (h : Stmt.AtHead settings room condition body step machine head) :
    head.environment.nameSets = machine.environment.nameSets := by
  obtain ⟨logged, left, hlog, h⟩ := h
  rw [h.nameSets_eq (steady_condition settings room condition) (steady_body room body)
    (steady_optional settings room step), nameSets_of_log hlog]

/-- One call brings the names in scope that the text tells. -/
theorem Calls.nameSets_eq {node : Node} {turn : Turn} {first middle : Machine}
    (h : Calls settings node turn first middle) :
    middle.environment.nameSets = node.setsAt first.environment.nameSets turn := by
  cases h with
  | item h => exact (Stmt.declares_executeAll settings _ _).ok h
  | expression hlog => exact nameSets_of_log hlog
  | print hlog => exact nameSets_of_log hlog
  | initial hlog => exact nameSets_of_log hlog
  | block henter => exact nameSets_of_enterBlock henter
  | thenCondition hlog => exact nameSets_of_log hlog
  | elseCondition hlog => exact nameSets_of_log hlog
  | thenBlock hlog h hnoted henter | elseBlock hlog h hnoted henter
  | elseAlternative hlog h hnoted henter =>
    rw [nameSets_of_enterBlock henter, nameSets_of_log hnoted,
      (steady_condition settings _ _).ok h, nameSets_of_log hlog]
    rfl
  | loopCondition hhead => exact hhead.nameSets_eq
  | loopBlock hhead h henter =>
    rw [nameSets_of_enterBlock henter, (steady_condition settings _ _).ok h, hhead.nameSets_eq]
    rfl
  | loopStep hhead h hran =>
    rw [(steady_body _ _).round.ok hran, (steady_condition settings _ _).ok h, hhead.nameSets_eq]
    rfl
  | binaryRight h => exact (Expr.steady_evaluate settings _ _).ok h
  | logicalRight h _ _ => exact (Expr.steady_evaluate settings _ _).ok h
  | _ => rfl

/-- Where a run comes, the names in scope are those that the text tells. -/
theorem Reaches.locate_eq {node last : Node} {path : List Turn} {first machine : Machine}
    (h : Reaches settings node first path last machine) :
    node.locate first.environment.nameSets path = some (last, machine.environment.nameSets) := by
  induction h with
  | here => rfl
  | inside hchild hcall _ ih =>
    rw [Node.locate, hchild]
    rw [hcall.nameSets_eq] at ih
    exact ih

end Lox

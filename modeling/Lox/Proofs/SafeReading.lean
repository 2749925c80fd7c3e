import Lox.Proofs.FollowedReading

/-!
# Reading is safe

Read by index, a program follows the rules step by step and is never halted. So no token
is asked for that is not in the list, the counters stay in their range, every statement
passes a token, and all loops come to an end, whatever the tokens are.
-/
namespace Lox

namespace Indexed

variable {tokens : List Token} {room rounds : Nat} {c : Cursor}

/-! ### Rules for expressions -/

section Expressions

variable {operand deeper expression : Indexed Expr} {rule rule' : Rule Expr}

theorem Follows.operation (h : Follows tokens room operand rule)
    (hrounds : tokens.length ≤ rounds) :
    Follows tokens room (operation rounds operand) (Rule.operation rule) := by
  have hlevels : ∀ level ∈ Rule.levels, level.wanted .eof = false := fun _ h =>
    (Rule.wanted_of_mem_levels h).2
  unfold Indexed.operation Rule.operation
  generalize Rule.levels = levels at hlevels
  induction levels with
  | nil => exact h
  | cons level rest ih =>
    obtain ⟨hlevel, hrest⟩ := List.forall_mem_cons.1 hlevels
    exact (ih hrest).chain hlevel hrounds

theorem Follows.assignment (ho : Follows tokens room operand rule)
    (he : Follows tokens room expression rule') (hrounds : tokens.length ≤ rounds) :
    Follows tokens room (assignment rounds operand expression) (Rule.assignment rule rule') := by
  refine (ho.operation hrounds).bind fun target => (follows_accept rfl).bind fun o => ?_
  cases o with
  | none => exact follows_pure _
  | some equals =>
    refine he.bind fun value => ?_
    cases target with
    | ident name => exact follows_pure _
    | _ => exact (follows_report _ _).bind fun _ => follows_pure _

theorem Follows.primary (he : Follows tokens room expression rule) :
    Follows tokens room (primary expression) (Rule.primary rule) := by
  refine ⟨he.composed.primary, fun c hc => .peek_bind hc ?_⟩
  cases hkind : c.peek.kind
  case kwFalse => exact .word hc hkind (by decide) (follows_pure _)
  case kwTrue => exact .word hc hkind (by decide) (follows_pure _)
  case kwNil => exact .word hc hkind (by decide) (follows_pure _)
  case number => exact .word hc hkind (by decide) (follows_pure _)
  case string => exact .word hc hkind (by decide) (follows_pure _)
  case identifier => exact .word hc hkind (by decide) (follows_pure _)
  case leftParen =>
    refine .word hc hkind (by decide) (he.bind fun inner => ?_)
    exact (follows_expect (by decide)).bind fun _ => follows_pure _
  all_goals exact (follows_fail _ _).run c hc

theorem Follows.prefixed (hd : Follows tokens room deeper rule)
    (he : Follows tokens room expression rule') :
    Follows tokens room (prefixed deeper expression) (Rule.prefixed rule rule') := by
  refine (follows_accept rfl).bind fun o => ?_
  cases o with
  | none => exact he.primary
  | some op => exact hd.bind fun _ => follows_pure _

end Expressions

/-- Rules are called in one another no deeper than twice the room. -/
theorem follows_operand_expression (hrounds : tokens.length ≤ rounds) (room : Nat) :
    (∀ calls, 2 * room + 2 ≤ calls →
        Follows tokens room (operand rounds calls) (Rule.operand room)) ∧
      ∀ calls, 2 * room + 1 ≤ calls →
        Follows tokens room (expression rounds calls) (Rule.expression room) := by
  induction room with
  | zero =>
    have he : ∀ calls, 2 * 0 + 1 ≤ calls →
        Follows tokens 0 (expression rounds calls) (Rule.expression 0) := by
      intro calls hcalls
      obtain ⟨more, rfl⟩ : ∃ more, calls = more + 1 := ⟨calls - 1, by omega⟩
      rw [expression, Rule.expression]
      exact follows_nested_zero _
    refine ⟨fun calls hcalls => ?_, he⟩
    obtain ⟨more, rfl⟩ : ∃ more, calls = more + 1 := ⟨calls - 1, by omega⟩
    have hexpression := he more (by omega)
    rw [Rule.expression] at hexpression
    rw [operand, Rule.operand]
    exact (follows_nested_zero _).prefixed hexpression
  | succ room ih =>
    obtain ⟨iho, ihe⟩ := ih
    have he : ∀ calls, 2 * (room + 1) + 1 ≤ calls →
        Follows tokens (room + 1) (expression rounds calls) (Rule.expression (room + 1)) := by
      intro calls hcalls
      obtain ⟨more, rfl⟩ : ∃ more, calls = more + 1 := ⟨calls - 1, by omega⟩
      rw [expression, Rule.expression]
      exact ((iho more (by omega)).assignment (ihe more (by omega)) hrounds).nested
    refine ⟨fun calls hcalls => ?_, he⟩
    obtain ⟨more, rfl⟩ : ∃ more, calls = more + 1 := ⟨calls - 1, by omega⟩
    rw [operand, Rule.operand_succ]
    exact (iho more (by omega)).nested.prefixed (he more (by omega))

/-! ### Rules for statements -/

section Statements

variable {expression : Indexed Expr} {block : Indexed (List Stmt)} {rule : Rule Expr}
  {blockRule : Rule (List Stmt)}

theorem Follows.braced (hb : Follows tokens room block blockRule) {what : String} :
    Follows tokens room (braced block what) (Rule.braced blockRule what) :=
  (follows_expect (by decide)).bind fun _ => hb

theorem Follows.optional (he : Follows tokens room expression rule) {stop : Kind} :
    Follows tokens room (optional expression stop) (Rule.optional rule stop) := by
  refine follows_peek.bind fun token => ?_
  split
  · exact follows_pure _
  · exact he.bind fun _ => follows_pure _

theorem Follows.function (hb : Follows tokens room block blockRule)
    (hrounds : tokens.length ≤ rounds) (word : String) :
    Follows tokens room (function rounds block word) (Rule.function blockRule word) :=
  (follows_expect (by decide)).bind fun _ => (follows_expect (by decide)).bind fun _ =>
    (follows_parameters hrounds).bind fun _ => (follows_expect (by decide)).bind fun _ =>
    (follows_expect (by decide)).bind fun _ => hb.outsideLoops.bind fun _ => follows_pure _

theorem Follows.classDecl (hb : Follows tokens room block blockRule)
    (hrounds : tokens.length ≤ rounds) :
    Follows tokens room (classDecl rounds block) (Rule.classDecl blockRule) := by
  refine (follows_expect (by decide)).bind fun _ => follows_superclass.bind fun _ =>
    (follows_expect (by decide)).bind fun _ => ?_
  have hmethod := hb.function hrounds "method"
  refine Follows.bind ?_ fun _ => (follows_expect (by decide)).bind fun _ => follows_pure _
  exact follows_many hmethod.composed
    (fun c hclose _ _ => Rule.consumes_function hb.composed "method" c hclose)
    (fun d hd _ => hmethod.run d hd) hrounds

theorem Follows.varDecl (he : Follows tokens room expression rule) :
    Follows tokens room (varDecl expression) (Rule.varDecl rule) := by
  refine (follows_expect (by decide)).bind fun name => (follows_accept rfl).bind fun o => ?_
  have hend (initial : Option Expr) : Follows tokens room
      (expect .semicolon "';' after variable declaration" >>= fun _ =>
        pure (Stmt.varDecl name initial))
      (Rule.expect .semicolon "';' after variable declaration" >>= fun _ =>
        pure (Stmt.varDecl name initial)) :=
    (follows_expect (by decide)).bind fun _ => follows_pure _
  cases o with
  | none => exact (follows_pure _).bind hend
  | some equals => exact (he.bind fun _ => follows_pure _).bind hend

theorem Follows.expressionStmt (he : Follows tokens room expression rule) :
    Follows tokens room (expressionStmt expression) (Rule.expressionStmt rule) :=
  he.bind fun _ => (follows_expect (by decide)).bind fun _ => follows_pure _

theorem Follows.printStmt (he : Follows tokens room expression rule) :
    Follows tokens room (printStmt expression) (Rule.printStmt rule) :=
  he.bind fun _ => (follows_expect (by decide)).bind fun _ => follows_pure _

theorem Follows.ifStmt (he : Follows tokens room expression rule)
    (hb : Follows tokens room block blockRule) :
    Follows tokens room (ifStmt expression block) (Rule.ifStmt rule blockRule) := by
  refine (follows_expect (by decide)).bind fun _ => he.bind fun _ =>
    (follows_expect (by decide)).bind fun _ => hb.braced.bind fun _ =>
    (follows_accept rfl).bind fun o => ?_
  cases o with
  | none => exact follows_pure _
  | some other => exact hb.braced.bind fun _ => follows_pure _

theorem Follows.whileStmt (he : Follows tokens room expression rule)
    (hb : Follows tokens room block blockRule) :
    Follows tokens room (whileStmt expression block) (Rule.whileStmt rule blockRule) :=
  (follows_expect (by decide)).bind fun _ => he.bind fun _ =>
    (follows_expect (by decide)).bind fun _ => hb.braced.inLoop.bind fun _ => follows_pure _

theorem Follows.forInitial (he : Follows tokens room expression rule) :
    Follows tokens room (forInitial expression) (Rule.forInitial rule) := by
  refine ⟨he.composed.forInitial, fun c hc => .peek_bind hc ?_⟩
  cases hkind : c.peek.kind
  case semicolon => exact .word hc hkind (by decide) (follows_pure _)
  case kwVar => exact .word hc hkind (by decide) (he.varDecl.bind fun _ => follows_pure _)
  all_goals exact (he.expressionStmt.bind fun _ => follows_pure _).run c hc

theorem Follows.forStmt (he : Follows tokens room expression rule)
    (hb : Follows tokens room block blockRule) :
    Follows tokens room (forStmt expression block) (Rule.forStmt rule blockRule) :=
  (follows_expect (by decide)).bind fun _ => he.forInitial.bind fun _ => he.optional.bind fun _ =>
    (follows_expect (by decide)).bind fun _ => he.optional.bind fun _ =>
    (follows_expect (by decide)).bind fun _ => hb.braced.inLoop.bind fun _ => follows_pure _

theorem Follows.returnStmt (he : Follows tokens room expression rule) (keyword : Token) :
    Follows tokens room (returnStmt expression keyword) (Rule.returnStmt rule keyword) :=
  he.optional.bind fun _ => (follows_expect (by decide)).bind fun _ => follows_pure _

theorem follows_jumpStmt (keyword : Token) (word : String) (stmt : Stmt) :
    Follows tokens room (jumpStmt keyword word stmt) (Rule.jumpStmt keyword word stmt) := by
  refine ⟨.jumpStmt keyword word stmt, fun c hc => .place_bind ?_⟩
  by_cases hloops : c.loops = 0
  · have hplace : c.place.loops = 0 := congrArg Int.ofNat hloops
    rw [if_pos hplace]
    refine ((follows_fail keyword _).run c hc).congr ?_
    change (if c.loops = 0 then _ else _ : Rule Stmt) c = _
    rw [if_pos hloops]
  · have hplace : ¬c.place.loops = 0 := fun h => hloops (Int.ofNat.inj h)
    rw [if_neg hplace]
    have hexpect : Follows tokens room (expect .semicolon ("';' after '" ++ word ++ "'"))
        (Rule.expect .semicolon ("';' after '" ++ word ++ "'")) := follows_expect (by decide)
    refine ((hexpect.bind fun _ => follows_pure stmt).run c hc).congr ?_
    change (if c.loops = 0 then _ else _ : Rule Stmt) c = _
    rw [if_neg hloops]

theorem Follows.statement (he : Follows tokens room expression rule)
    (hb : Follows tokens room block blockRule) :
    Follows tokens room (statement expression block) (Rule.statement rule blockRule) := by
  refine ⟨he.composed.statement hb.composed, fun c hc => .peek_bind hc ?_⟩
  cases hkind : c.peek.kind
  case kwPrint => exact .word hc hkind (by decide) he.printStmt
  case kwIf => exact .word hc hkind (by decide) (he.ifStmt hb)
  case kwWhile => exact .word hc hkind (by decide) (he.whileStmt hb)
  case kwFor => exact .word hc hkind (by decide) (he.forStmt hb)
  case kwReturn => exact .word hc hkind (by decide) (he.returnStmt _)
  case kwBreak => exact .word hc hkind (by decide) (follows_jumpStmt _ _ _)
  case kwContinue => exact .word hc hkind (by decide) (follows_jumpStmt _ _ _)
  case leftBrace => exact .word hc hkind (by decide) (hb.bind fun _ => follows_pure _)
  case semicolon => exact .word hc hkind (by decide) (follows_pure _)
  all_goals exact he.expressionStmt.run c hc

theorem Follows.declaration (he : Follows tokens room expression rule)
    (hb : Follows tokens room block blockRule) (hrounds : tokens.length ≤ rounds) :
    Follows tokens room (declaration rounds expression block)
      (Rule.declaration rule blockRule) := by
  refine ⟨he.composed.declaration hb.composed, fun c hc => .peek_bind hc ?_⟩
  cases hkind : c.peek.kind
  case kwClass => exact .word hc hkind (by decide) (hb.classDecl hrounds)
  case kwFun =>
    exact .word hc hkind (by decide) ((hb.function hrounds _).bind fun _ => follows_pure _)
  case kwVar => exact .word hc hkind (by decide) he.varDecl
  all_goals exact (he.statement hb).run c hc

/-- Before the end, a statement passes a token and closes what it opens, so it is not halted. -/
theorem followsAt_recovered (he : Follows tokens room expression rule)
    (hb : Follows tokens room block blockRule) (hrounds : tokens.length ≤ rounds)
    (hc : c.In tokens room) (hahead : c.ahead ≠ []) :
    FollowsAt tokens (recovered rounds expression block) (Rule.recovered rule blockRule) c := by
  have hdeclaration := he.declaration hb hrounds
  obtain ⟨_, ts, -, hts, hpasses⟩ :=
    Rule.recovered_passes he.composed hb.composed hc.close_kind hahead
  refine FollowsAt.advancing ?_ hpasses hts
  exact (hdeclaration.run c hc).recover hdeclaration.composed hc hahead hrounds

theorem follows_many_recovered {stop : Kind} (he : Follows tokens room expression rule)
    (hb : Follows tokens room block blockRule) (hrounds : tokens.length ≤ rounds) :
    Follows tokens room (many stop (recovered rounds expression block) rounds)
      (Rule.many stop (Rule.recovered rule blockRule)) :=
  follows_many (he.composed.recovered hb.composed)
    (Rule.consumesBefore_recovered he.composed hb.composed)
    (fun _ hd hahead => followsAt_recovered he hb hrounds hd hahead) hrounds

end Statements

theorem follows_block (hrounds : tokens.length ≤ rounds) (room : Nat) :
    ∀ calls, 2 * room + 1 ≤ calls →
      Follows tokens room (block rounds calls) (Rule.block room) := by
  induction room with
  | zero =>
    intro calls hcalls
    obtain ⟨more, rfl⟩ : ∃ more, calls = more + 1 := ⟨calls - 1, by omega⟩
    exact follows_nested_zero _
  | succ room ih =>
    intro calls hcalls
    obtain ⟨more, rfl⟩ : ∃ more, calls = more + 1 := ⟨calls - 1, by omega⟩
    have he := (follows_operand_expression hrounds room).2 more (by omega)
    refine Follows.nested ?_
    exact (follows_many_recovered he (ih more (by omega)) hrounds).bind fun _ =>
      (follows_expect (by decide)).bind fun _ => follows_pure _

theorem follows_program {calls : Nat} (hrounds : tokens.length ≤ rounds)
    (hcalls : 2 * Rule.maxDepth + 1 ≤ calls) :
    Follows tokens Rule.maxDepth (program rounds calls) Rule.program :=
  follows_many_recovered ((follows_operand_expression hrounds Rule.maxDepth).2 calls hcalls)
    (follows_block hrounds Rule.maxDepth calls hcalls) hrounds

end Indexed

/-- Any tokens with one end are read without a halt: every access is to a token of the list, the
counters stay in their range, each statement passes a token and changes no counter, and no loop and
no nesting of rules outlasts its bound. What is read and reported is what the rules read and report.
All tokens are passed, and nothing is left open. -/
theorem Reading.never_halts {body : List Token} {close : Token} (hclose : close.kind = .eof)
    (hbody : ∀ t ∈ body, t.kind ≠ .eof) :
    (∀ rounds calls, body.length < rounds → 2 * Rule.maxDepth < calls →
      Indexed.program rounds calls (body ++ [close]) ⟨0, 0, 0⟩ =
        .ok ⟨.ok (Reading.ofTokens body close).program, ⟨body.length, 0, 0⟩,
          (Reading.ofTokens body close).faults⟩) ∧
      (Reading.ofTokens body close).finish = ⟨[], close, body.length, 0, 0⟩ ∧
      ∀ room (c : Cursor), c.close.kind = .eof → c.ahead ≠ [] →
        ∃ stmt d faults, Rule.recovered (Rule.expression room) (Rule.block room) c =
            ⟨.ok stmt, d, faults⟩ ∧
          c.position < d.position ∧ d.depth = c.depth ∧ d.loops = c.loops := by
  obtain ⟨stmts, faults, hprogram⟩ := Rule.program_eq hclose hbody
  refine ⟨fun rounds calls hrounds hcalls => ?_, ?_, fun room c hc hahead => ?_⟩
  · have hin : (Cursor.start body close).In (body ++ [close]) Rule.maxDepth :=
      ⟨rfl, hclose, hbody, Nat.zero_add _⟩
    have hlength : (body ++ [close]).length ≤ rounds := by
      rw [List.length_append, List.length_singleton]
      omega
    have hfollows := (Indexed.follows_program hlength hcalls).run _ hin
    unfold Indexed.FollowsAt at hfollows
    rw [hprogram] at hfollows
    rw [ofTokens_of_ok hprogram]
    exact hfollows.1
  · rw [ofTokens_of_ok hprogram]
  · obtain ⟨stmt, ts, hok, hts, hpasses⟩ := Rule.recovered_passes
      (Rule.Composed.operand_expression room).2 (.block_room room) hc hahead
    rcases hstep : Rule.recovered (Rule.expression room) (Rule.block room) c with
      ⟨outcome, d, reports⟩
    rw [hstep] at hok hpasses
    obtain rfl : outcome = .ok stmt := hok
    have hposition : d.position = c.position + ts.length := hpasses.position
    have hpos := List.length_pos_of_ne_nil hts
    exact ⟨stmt, d, reports, rfl, by omega, hpasses.depth, hpasses.loops⟩

-- Without a token at the end, the first look ahead is outside the list.
example : Indexed.program 1 129 [] ⟨0, 0, 0⟩ = .error (.access 0) := rfl

/-- The tokens of `fun f ( , { print`. -/
def straggling : List Token :=
  [⟨.kwFun, "fun", none, 1⟩, ⟨.identifier, "f", none, 1⟩, ⟨.leftParen, "(", none, 1⟩,
    ⟨.comma, ",", none, 1⟩, ⟨.leftBrace, "\x7b", none, 1⟩, ⟨.kwPrint, "print", none, 1⟩]

/-- Both faults are recovered from, the second one at the end, and nothing is left open. -/
theorem Reading.straggling_never_halts :
    Indexed.program 7 129 (straggling ++ [⟨.eof, "", none, 1⟩]) ⟨0, 0, 0⟩ =
        .ok ⟨.ok [.error ⟨.comma, ",", none, 1⟩ "Expect parameter name.",
            .error ⟨.eof, "", none, 1⟩ "Expect expression."],
          ⟨6, 0, 0⟩,
          [⟨⟨.comma, ",", none, 1⟩, .expected "parameter name"⟩,
            ⟨⟨.eof, "", none, 1⟩, .expected "expression"⟩]⟩ ∧
      (Reading.ofTokens straggling ⟨.eof, "", none, 1⟩).finish =
        ⟨[], ⟨.eof, "", none, 1⟩, 6, 0, 0⟩ ∧
      ∃ stmt d faults, Rule.recovered (Rule.expression 0) (Rule.block 0)
          (.start straggling ⟨.eof, "", none, 1⟩) = ⟨.ok stmt, d, faults⟩ ∧
        0 < d.position ∧ d.depth = 0 ∧ d.loops = 0 := by
  obtain ⟨hprogram, hfinish, hstatement⟩ :=
    @Reading.never_halts straggling ⟨.eof, "", none, 1⟩ rfl (by decide)
  exact ⟨hprogram 7 129 (by decide) (by decide), hfinish, hstatement 0 _ rfl (by decide)⟩

end Lox

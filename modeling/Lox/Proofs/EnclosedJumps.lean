import Lox.Proofs.JoinedRuns
import Lox.Proofs.RuleParts

/-!
# Jumps stay in their loops

A `break` or `continue` is read only where a loop is open in the function body at hand,
and recovery from a fault opens and closes no loop. So in a program that has been read,
with or without faults, each of them is in the body of a loop with no function in
between. The loop stops them at every round, and a run of the program ends in no other
way than by its last statement, by a fault or by an expression that is too high.
-/
namespace Lox

mutual

/-- Each jump in a statement is in the body of a loop and in the same function as the loop, which is
in the statement or, if `inLoop`, around it. -/
def Stmt.jumpsEnclosed (inLoop : Bool) : Stmt → Bool
  | .block body => Stmt.jumpsEnclosedIn inLoop body
  | .ifThen _ body => Stmt.jumpsEnclosedIn inLoop body
  | .ifElse _ body alternative =>
    Stmt.jumpsEnclosedIn inLoop body && Stmt.jumpsEnclosedIn inLoop alternative
  | .whileLoop _ body _ => Stmt.jumpsEnclosedIn true body
  | .functionDecl function => function.jumpsEnclosed
  | .classDecl _ _ methods => Function.jumpsEnclosedIn methods
  | .breakLoop _ | .continueLoop _ => inLoop
  | .expression _ | .print _ | .varDecl .. | .returnValue .. | .empty | .error .. => true

/-- Each jump in a list of statements is in the body of a loop. -/
def Stmt.jumpsEnclosedIn (inLoop : Bool) : List Stmt → Bool
  | [] => true
  | stmt :: rest => stmt.jumpsEnclosed inLoop && Stmt.jumpsEnclosedIn inLoop rest

/-- Each jump in a function is in the body of a loop of the function. -/
def Function.jumpsEnclosed : Function → Bool
  | .mk _ _ body => Stmt.jumpsEnclosedIn false body

/-- Each jump in a list of functions is in the body of a loop of its function. -/
def Function.jumpsEnclosedIn : List Function → Bool
  | [] => true
  | function :: rest => function.jumpsEnclosed && Function.jumpsEnclosedIn rest

end

theorem Stmt.jumpsEnclosedIn_of_forall {inLoop : Bool} {body : List Stmt}
    (h : ∀ stmt ∈ body, stmt.jumpsEnclosed inLoop = true) :
    Stmt.jumpsEnclosedIn inLoop body = true := by
  induction body with
  | nil => rfl
  | cons stmt rest ih =>
    obtain ⟨hstmt, hrest⟩ := List.forall_mem_cons.1 h
    rw [jumpsEnclosedIn, hstmt, ih hrest, Bool.and_self]

theorem Function.jumpsEnclosedIn_of_forall {methods : List Function}
    (h : ∀ function ∈ methods, function.jumpsEnclosed = true) :
    Function.jumpsEnclosedIn methods = true := by
  induction methods with
  | nil => rfl
  | cons function rest ih =>
    obtain ⟨hfunction, hrest⟩ := List.forall_mem_cons.1 h
    rw [jumpsEnclosedIn, hfunction, ih hrest, Bool.and_self]

/-! ### Reading -/

namespace Rule

variable {α β : Type} {n : Nat} {P : α → Prop} {Q : β → Prop}

/-- Where `n` loops are open, what the rule reads has the property. -/
def Yields (n : Nat) (rule : Rule α) (P : α → Prop) : Prop :=
  ∀ c : Cursor, c.loops = n → ∀ a, (rule c).outcome = .ok a → P a

theorem yields_true (rule : Rule α) : Yields n rule fun _ => True := fun _ _ _ _ => trivial

theorem yields_pure {a : α} (h : P a) : Yields n (pure a) P := by
  intro c _ x hx
  cases hx
  exact h

/-- A rule that has a result leaves as many loops open as there were. -/
theorem Yields.bind {rule : Rule α} {next : α → Rule β} (hr : Yields n rule P)
    (hc : Composed rule) (hn : ∀ a, P a → Yields n (next a) Q) : Yields n (rule >>= next) Q := by
  intro c hloops b hb
  rcases h : rule c with ⟨fault | a, d, reports⟩
  · rw [bind_of_error h] at hb
    cases hb
  · have hok : (rule c).outcome = .ok a := by rw [h]
    have hd := (hc.forward.closes c a hok).2
    rw [h] at hd
    rw [bind_of_ok h] at hb
    exact hn a (hr c hloops a hok) d (hd.trans hloops) b hb

/-- What is read in front does not matter. -/
theorem Yields.after {rule : Rule α} {next : α → Rule β} (hc : Composed rule)
    (hn : ∀ a, Yields n (next a) Q) : Yields n (rule >>= next) Q :=
  (yields_true rule).bind hc fun a _ => hn a

theorem yields_bracket {rule outer : Rule α} {m : Nat} {before : Cursor → Cursor}
    {after : Cursor → Cursor → Cursor} (hr : Yields m rule P)
    (heq : ∀ c, outer c = (rule (before c)).closeWith (after c))
    (hbefore : ∀ c, c.loops = n → (before c).loops = m) : Yields n outer P := by
  intro c hloops a ha
  rw [heq] at ha
  rcases h : rule (before c) with ⟨fault | b, d, reports⟩
  · rw [h] at ha
    cases ha
  · rw [h] at ha
    cases ha
    exact hr (before c) (hbefore c hloops) a (by rw [h])

theorem Yields.inLoop {rule : Rule α} (hr : Yields (n + 1) rule P) : Yields n (inLoop rule) P :=
  yields_bracket hr (inLoop_eq rule) fun _ h => congrArg (· + 1) h

theorem Yields.outsideLoops {rule : Rule α} (hr : Yields 0 rule P) :
    Yields n (outsideLoops rule) P :=
  yields_bracket hr (outsideLoops_eq rule) fun _ _ => rfl

theorem Yields.nested {rule : Rule α} (hr : Yields n rule P) : Yields n (nested rule) P :=
  yields_bracket hr (nested_eq rule) fun _ h => h

theorem Yields.recover {rule : Rule α} {instead : SyntaxFault → α} (hr : Yields n rule P)
    (hinstead : ∀ fault, P (instead fault)) : Yields n (recover rule instead) P := by
  intro c hloops a ha
  unfold Rule.recover at ha
  rcases h : rule c with ⟨fault | b, d, reports⟩
  · rw [h] at ha
    cases ha
    exact hinstead fault
  · rw [h] at ha
    cases ha
    exact hr c hloops a (by rw [h])

theorem Yields.many {stop : Kind} {item : Rule α} (hi : Yields n item P) (hc : Composed item) :
    Yields n (many stop item) fun as => ∀ a ∈ as, P a := by
  refine .after .ahead fun bound => ?_
  induction bound with
  | nil => exact yields_pure (by simp)
  | cons _ more ih =>
    refine .after .peek fun token => ?_
    dsimp only
    split
    · exact yields_pure (by simp)
    · refine hi.bind hc fun a ha => ih.bind (hc.manyUntil more) fun as has => yields_pure ?_
      exact List.forall_mem_cons.2 ⟨ha, has⟩

/-- A jump needs an open loop. -/
theorem yields_jumpStmt {keyword : Token} {word : String} {stmt : Stmt} {P : Stmt → Prop}
    (h : 0 < n → P stmt) : Yields n (jumpStmt keyword word stmt) P := by
  intro c hloops a ha
  have ha : ((if c.loops = 0 then _ else _ : Rule Stmt) c).outcome = .ok a := ha
  split at ha
  · cases ha
  · next hne => exact Yields.after .expect (fun _ => yields_pure (h (by omega))) c hloops a ha

/-! ### Rules for statements -/

/-- Where `n` loops are open, each jump in the body is in a loop of the body or in an open one. -/
def Settled (n : Nat) (body : List Stmt) : Prop := Stmt.jumpsEnclosedIn (decide (0 < n)) body = true

/-- Where `n` loops are open, each jump in the statement is in a loop of it or in an open one. -/
def SettledStmt (n : Nat) (stmt : Stmt) : Prop := stmt.jumpsEnclosed (decide (0 < n)) = true

theorem yields_varDecl {expression : Rule Expr} (he : Composed expression) :
    Yields n (varDecl expression) (SettledStmt n) := by
  refine .after .expect fun name => .after .accept fun o => ?_
  cases o with
  | none => exact .after (.pure _) fun initial => .after .expect fun _ => yields_pure rfl
  | some equals => exact .after (he.map _) fun initial => .after .expect fun _ => yields_pure rfl

theorem yields_expressionStmt {expression : Rule Expr} (he : Composed expression) :
    Yields n (expressionStmt expression) (SettledStmt n) :=
  .after he fun _ => .after .expect fun _ => yields_pure rfl

theorem yields_forInitial {expression : Rule Expr} (he : Composed expression) :
    Yields n (forInitial expression) fun initial => ∀ stmt ∈ initial, SettledStmt n stmt := by
  refine .after .peek fun token => ?_
  split
  · exact .after .advance fun _ => yields_pure (by simp)
  · refine .after .advance fun _ => (yields_varDecl he).bind he.varDecl fun stmt h => ?_
    exact yields_pure (by simpa using h)
  · refine (yields_expressionStmt he).bind he.expressionStmt fun stmt h => ?_
    exact yields_pure (by simpa using h)

/-- The loop of a `for` statement is around its body alone. -/
theorem settledStmt_forLoop {initial : Option Stmt} {condition step : Option Expr}
    {body : List Stmt} (hinitial : ∀ stmt ∈ initial, SettledStmt n stmt)
    (hbody : Settled (n + 1) body) : SettledStmt n (forLoop initial condition step body) := by
  have hbody : Stmt.jumpsEnclosedIn true body = true := by simpa [Settled] using hbody
  cases initial with
  | none => exact hbody
  | some stmt =>
    have hstmt : stmt.jumpsEnclosed (decide (0 < n)) = true := hinitial stmt rfl
    simp [SettledStmt, forLoop, Stmt.jumpsEnclosed, Stmt.jumpsEnclosedIn, hstmt, hbody]

section Statements

variable {expression : Rule Expr} {block : Rule (List Stmt)} (he : Composed expression)
  (hc : Composed block) (hb : ∀ n, Yields n block (Settled n))
include he hc hb

omit he hc in
theorem yields_braced {what : String} : Yields n (braced block what) (Settled n) :=
  .after .expect fun _ => hb n

omit he in
theorem yields_function {word : String} :
    Yields n (function block word) fun function => function.jumpsEnclosed = true := by
  refine .after .expect fun _ => .after .expect fun _ => .after .parameters fun _ =>
    .after .expect fun _ => .after .expect fun _ => ?_
  exact (hb 0).outsideLoops.bind (.outsideLoops hc) fun body h => yields_pure h

omit he in
theorem yields_classDecl : Yields n (classDecl block) (SettledStmt n) := by
  refine .after .expect fun _ => .after .superclass fun _ => .after .expect fun _ => ?_
  refine Yields.bind ((yields_function hc hb).many (hc.function _)) (hc.function _).many
    fun methods h => ?_
  exact .after .expect fun _ => yields_pure (Function.jumpsEnclosedIn_of_forall h)

theorem yields_ifStmt : Yields n (ifStmt expression block) (SettledStmt n) := by
  refine .after .expect fun _ => .after he fun condition => .after .expect fun _ => ?_
  refine (yields_braced hb).bind hc.braced fun body hbody => .after .accept fun o => ?_
  cases o with
  | none => exact yields_pure hbody
  | some other =>
    refine (yields_braced hb).bind hc.braced fun alternative halternative => yields_pure ?_
    exact Bool.and_eq_true_iff.2 ⟨hbody, halternative⟩

theorem yields_whileStmt : Yields n (whileStmt expression block) (SettledStmt n) := by
  refine .after .expect fun _ => .after he fun condition => .after .expect fun _ => ?_
  refine (yields_braced hb).inLoop.bind (.inLoop hc.braced) fun body hbody => yields_pure ?_
  simpa [Settled, SettledStmt, Stmt.jumpsEnclosed] using hbody

theorem yields_forStmt : Yields n (forStmt expression block) (SettledStmt n) := by
  refine .after .expect fun _ => ?_
  refine (yields_forInitial he).bind he.forInitial fun initial hinitial => ?_
  refine .after he.optional fun condition => .after .expect fun _ => .after he.optional fun step =>
    .after .expect fun _ => ?_
  refine (yields_braced hb).inLoop.bind (.inLoop hc.braced) fun body hbody => ?_
  exact yields_pure (settledStmt_forLoop hinitial hbody)

theorem yields_statement : Yields n (statement expression block) (SettledStmt n) := by
  refine .after .peek fun token => ?_
  split
  · exact .after .advance fun _ => .after he fun _ => .after .expect fun _ => yields_pure rfl
  · exact .after .advance fun _ => yields_ifStmt he hc hb
  · exact .after .advance fun _ => yields_whileStmt he hc hb
  · exact .after .advance fun _ => yields_forStmt he hc hb
  · exact .after .advance fun _ => .after he.optional fun _ => .after .expect fun _ =>
      yields_pure rfl
  · exact .after .advance fun _ => yields_jumpStmt fun h => decide_eq_true h
  · exact .after .advance fun _ => yields_jumpStmt fun h => decide_eq_true h
  · exact .after .advance fun _ => (hb n).bind hc fun body hbody => yields_pure hbody
  · exact .after .advance fun _ => yields_pure rfl
  · exact yields_expressionStmt he

theorem yields_recovered : Yields n (recovered expression block) (SettledStmt n) := by
  refine Yields.recover ?_ fun fault => rfl
  refine .after .peek fun token => ?_
  split
  · exact .after .advance fun _ => yields_classDecl hc hb
  · refine .after .advance fun _ => ?_
    exact (yields_function hc hb).bind (hc.function _) fun function h => yields_pure h
  · exact .after .advance fun _ => yields_varDecl he
  · exact yields_statement he hc hb

theorem yields_many_recovered {stop : Kind} :
    Yields n (many stop (recovered expression block)) (Settled n) := by
  have hstmt : Yields n (recovered expression block) (SettledStmt n) := yields_recovered he hc hb
  intro c hloops body hbody
  exact Stmt.jumpsEnclosedIn_of_forall (hstmt.many (he.recovered hc) c hloops body hbody)

end Statements

/-- In a block, at whatever depth, each jump is in a loop of the block or in one that is open around
it. -/
theorem yields_block (room : Nat) : ∀ n, Yields n (block room) (Settled n) := by
  induction room with
  | zero =>
    intro n c _ body hbody
    cases hbody
  | succ room ih =>
    intro n
    have he := (Composed.operand_expression room).2
    have hc := Composed.block_room room
    refine Yields.nested ?_
    refine (yields_many_recovered he hc ih).bind (he.recovered hc).many fun body hbody => ?_
    exact .after .expect fun _ => yields_pure hbody

theorem yields_program : Yields 0 program (Settled 0) :=
  yields_many_recovered (Composed.operand_expression maxDepth).2 (.block_room maxDepth)
    (yields_block maxDepth)

end Rule

/-- In what is read from any tokens, each jump is in a loop of its function. -/
theorem Reading.jumpsEnclosedIn_program (body : List Token) (close : Token) :
    Stmt.jumpsEnclosedIn false (Reading.ofTokens body close).program = true := by
  have hyields := Rule.yields_program (.start body close) rfl
  unfold ofTokens
  dsimp only
  cases h : (Rule.program (.start body close)).outcome with
  | error fault => rfl
  | ok program => exact hyields program h

/-! ### Runs -/

namespace Exec

variable {α β : Type}

/-- The action does not end by one of these interrupts. -/
def Avoids (jumps : List Interrupt) (a : Exec α) : Prop :=
  ∀ machine interrupt final, a machine = .error interrupt final → interrupt ∉ jumps

/-- The action does not end by a jump. -/
abbrev Contained (a : Exec α) : Prop := Avoids [.breakLoop, .continueLoop] a

variable {jumps : List Interrupt}

theorem Contained.avoids {a : Exec α} (h : Contained a)
    (hjumps : jumps ⊆ [.breakLoop, .continueLoop]) : Avoids jumps a :=
  fun machine interrupt final hrun hmem => h machine interrupt final hrun (hjumps hmem)

theorem avoids_pure (x : α) : Avoids jumps (pure x : Exec α) := by
  intro machine interrupt final h
  cases h

theorem avoids_modify (change : Machine → Machine) :
    Avoids jumps (modify change : Exec PUnit) := by
  intro machine interrupt final h
  cases h

theorem avoids_get : Avoids jumps (get : Exec Machine) := by
  intro machine interrupt final h
  cases h

theorem avoids_throw {interrupt : Interrupt} (h : interrupt ∉ jumps) :
    Avoids jumps (throw interrupt : Exec α) := by
  intro machine thrown final hthrow
  cases hthrow
  exact h

theorem contained_throw_fault (fault : Fault) : Contained (throw (.fault fault) : Exec α) :=
  avoids_throw (by simp)

theorem contained_log (settings : Settings) (room : Nat) (entry : Entry) :
    Contained (log settings room entry) := by
  intro machine interrupt final h
  obtain ⟨rfl, -⟩ := log_error h
  decide

theorem contained_ofExcept (result : Except Fault α) : Contained (ofExcept result) := by
  cases result with
  | ok a => exact avoids_pure a
  | error fault => exact contained_throw_fault fault

theorem Avoids.bind {a : Exec α} {f : α → Exec β} (ha : Avoids jumps a)
    (hf : ∀ x, Avoids jumps (f x)) : Avoids jumps (a >>= f) := by
  intro machine interrupt final h
  cases hrun : a machine with
  | ok x middle =>
    rw [bind_of_ok hrun] at h
    exact hf x middle interrupt final h
  | error other middle =>
    rw [bind_of_error hrun] at h
    cases h
    exact ha machine _ _ hrun

theorem Avoids.discard {a : Exec α} (ha : Avoids jumps a) : Avoids jumps (discard a) :=
  ha.bind fun _ => avoids_pure _

theorem contained_apply (operator : Origin → Except Fault α) : Contained (apply operator) :=
  avoids_get.bind fun _ => .bind (fun _ _ _ h => by cases h) fun _ => contained_ofExcept _

theorem Contained.call {room : Nat} {action : Nat → Exec α} (h : ∀ rest, Contained (action rest)) :
    Contained (call room action) := by
  cases room with
  | zero => exact avoids_throw (by decide)
  | succ rest => exact h rest

/-- A loop stops the jumps of its body. -/
theorem contained_round (body : Exec Unit) : Contained (round body) := by
  intro machine interrupt final h
  unfold round at h
  split at h
  case h_4 hcontinue hbreak _ =>
    cases h
    simpa using ⟨hbreak, hcontinue⟩
  all_goals cases h

theorem Contained.loop {condition : Exec Bool} {step : Exec Unit} (body : Exec Unit)
    (hcondition : Contained condition) (hstep : Contained step) (rounds : Nat) :
    Contained (loop condition body step rounds) := by
  induction rounds with
  | zero => exact avoids_throw (by decide)
  | succ rounds ih =>
    refine hcondition.bind fun goesOn => ?_
    cases goesOn with
    | false => exact avoids_pure _
    | true =>
      refine (contained_round body).bind fun again => ?_
      cases again with
      | false => exact avoids_pure _
      | true => exact hstep.bind fun _ => ih

section Forms

variable {settings : Settings} {room : Nat} {action : Nat → Exec Unit}
  (hjumps : jumps ⊆ [.breakLoop, .continueLoop])

include hjumps

/-- What a form does not end by, a statement of that form does not end by. -/
theorem Avoids.form {name : String} (h : ∀ rest, Avoids jumps (action rest)) :
    Avoids jumps (form settings room name action) := by
  cases room with
  | zero => exact avoids_throw fun hmem => absurd (hjumps hmem) (by decide)
  | succ rest => exact ((contained_log settings rest _).avoids hjumps).bind fun _ => h rest

theorem Avoids.inScope {a : Exec Unit} (h : Avoids jumps a) :
    Avoids jumps (inScope settings room a) := by
  have hleaving (depth : Nat) : Avoids jumps (leaving settings depth a) := by
    intro machine interrupt final hrun
    unfold leaving at hrun
    split at hrun <;> cases hrun
    exact h _ _ _ ‹_›
  have henter : Avoids jumps (enterScope settings room) := (avoids_modify _).bind fun _ =>
    avoids_get.bind fun _ => (contained_log settings room _).avoids hjumps
  exact avoids_get.bind fun _ => henter.bind fun _ => hleaving _

theorem Avoids.block (h : ∀ rest, Avoids jumps (action rest)) :
    Avoids jumps (block settings room action) := by
  refine .form hjumps fun rest => ?_
  cases rest with
  | zero => exact avoids_throw fun hmem => absurd (hjumps hmem) (by decide)
  | succ rest => exact (h rest).inScope hjumps

end Forms

end Exec

open Exec

/-- An expression does not jump. -/
theorem Expr.contained_evaluate (settings : Settings) (e : Expr) (room : Nat) :
    Contained (e.evaluate settings room) := by
  induction e generalizing room with
  | literal value => exact .call fun _ => avoids_pure _
  | grouping inner ih => exact .call fun rest => ih rest
  | ident name => exact .call fun _ => avoids_get.bind fun _ => contained_ofExcept _
  | assign name value ih =>
    exact .call fun rest => (ih rest).bind fun _ => avoids_get.bind fun _ =>
      (contained_ofExcept _).bind fun _ => (avoids_modify _).bind fun _ =>
        (contained_log settings rest _).bind fun _ => avoids_pure _
  | unary op right ih => exact .call fun rest => (ih rest).bind fun _ => contained_apply _
  | binary left op right ihl ihr =>
    exact .call fun rest => (ihl rest).bind fun _ => (ihr rest).bind fun _ => contained_apply _
  | logical left op right ihl ihr =>
    refine .call fun _ => .call fun rest => (ihl rest).bind fun _ =>
      (contained_ofExcept _).bind fun first => ?_
    split
    · exact (ihr rest).bind fun _ => (contained_ofExcept _).bind fun _ => avoids_pure _
    · exact avoids_pure _

namespace Exec

theorem contained_condition (settings : Settings) (room : Nat) (e : Expr) :
    Contained (condition settings room e) := by
  refine .call fun rest => (e.contained_evaluate settings rest).bind fun value =>
    (contained_log settings rest _).bind fun _ => ?_
  split
  · exact avoids_pure _
  · exact contained_throw_fault _

theorem contained_optional (settings : Settings) (room : Nat) (e : Option Expr) :
    Contained (optional settings room e) := by
  cases e with
  | none => exact avoids_pure _
  | some e => exact (e.contained_evaluate settings room).discard

end Exec

mutual

/-- A statement whose jumps are all in loops of its own does not end by a jump. -/
theorem Stmt.contained_execute (settings : Settings) (room : Nat) (stmt : Stmt)
    (h : stmt.jumpsEnclosed false = true) : Contained (stmt.execute settings room) := by
  have hjumps : [Interrupt.breakLoop, .continueLoop] ⊆ [.breakLoop, .continueLoop] :=
    List.Subset.refl _
  cases stmt with
  | expression e => exact .form hjumps fun rest => (e.contained_evaluate settings rest).discard
  | print e =>
    exact .form hjumps fun rest => (e.contained_evaluate settings rest).bind fun _ =>
      avoids_modify _
  | varDecl name initial =>
    refine .form hjumps fun rest => ?_
    cases initial with
    | none => exact (avoids_pure _).bind fun _ => (avoids_modify _).bind fun _ =>
        contained_log settings rest _
    | some e => exact (e.contained_evaluate settings rest).bind fun _ =>
        (avoids_modify _).bind fun _ => contained_log settings rest _
  | block body => exact .block hjumps fun rest => Stmt.contained_executeAll settings rest body h
  | ifThen condition body =>
    refine .form hjumps fun rest => (contained_condition _ _ _).bind fun taken =>
      (contained_log settings rest _).bind fun _ => ?_
    split
    · exact .block hjumps fun rest => Stmt.contained_executeAll settings rest body h
    · exact avoids_pure _
  | ifElse condition body alternative =>
    obtain ⟨hbody, halternative⟩ := Bool.and_eq_true_iff.1 h
    refine .form hjumps fun rest => (contained_condition _ _ _).bind fun taken =>
      (contained_log settings rest _).bind fun _ => ?_
    split
    · exact .block hjumps fun rest => Stmt.contained_executeAll settings rest body hbody
    · exact .block hjumps fun rest =>
        Stmt.contained_executeAll settings rest alternative halternative
  | whileLoop condition body step =>
    -- whatever is in the body, the loop stops its jumps
    exact .form hjumps fun _ =>
      Contained.loop _ (contained_condition _ _ _) (contained_optional _ _ _) _
  | functionDecl | returnValue | classDecl =>
    exact .form hjumps fun _ => contained_throw_fault _
  | breakLoop keyword => cases h
  | continueLoop keyword => cases h
  | empty | error => exact .form hjumps fun _ => avoids_pure _

/-- Statements whose jumps are all in loops of their own do not end by a jump. -/
theorem Stmt.contained_executeAll (settings : Settings) (room : Nat) (body : List Stmt)
    (h : Stmt.jumpsEnclosedIn false body = true) :
    Contained (Stmt.executeAll settings room body) := by
  cases body with
  | nil => exact avoids_pure _
  | cons stmt rest =>
    obtain ⟨hstmt, hrest⟩ := Bool.and_eq_true_iff.1 h
    exact (Stmt.contained_execute settings room stmt hstmt).bind fun _ =>
      Stmt.contained_executeAll settings room rest hrest

end

theorem Machine.interpret_ne_stray {settings : Settings} {program : List Stmt}
    (h : Stmt.jumpsEnclosedIn false program = true) (machine : Machine) (isBreak : Bool) :
    (machine.interpret settings program).1 ≠ .stray isBreak := by
  have hcontained := Stmt.contained_executeAll settings settings.stack.limit program h machine
  unfold interpret
  split
  case h_4 final hrun => exact absurd (hcontained _ final hrun) (by decide)
  case h_5 final hrun => exact absurd (hcontained _ final hrun) (by decide)
  all_goals exact nofun

/-- An execution that is not cut off by the bound on rounds is accepted or rejected. -/
theorem Session.verdict_execute {program : List Stmt}
    (h : Stmt.jumpsEnclosedIn false program = true) (rounds : Nat) (session : Session) :
    (session.execute rounds program).verdict = .accepted ∨
      (session.execute rounds program).verdict = .rejected ∨
      (session.execute rounds program).verdict = .cutOff .outOfRounds := by
  have hstray := @Machine.interpret_ne_stray (session.settings rounds) program h
    (.start session.environment session.serial)
  unfold execute
  dsimp only
  cases hending : ((Machine.start session.environment session.serial).interpret
      (session.settings rounds) program).1 with
  | completed => exact .inl rfl
  | fault cause => exact .inr (.inl rfl)
  | tooDeep => exact .inr (.inl rfl)
  | stray isBreak => exact absurd hending (hstray isBreak)
  | outOfRounds => exact .inr (.inr rfl)

/-- In the program of every source, with faults or without, each `break` and `continue` is in the
body of a loop of its function; and executing the program over any scopes and at any verbosity, on
a machine or in a session, never ends by one of them. -/
theorem jumps_enclosed (source : String) :
    Stmt.jumpsEnclosedIn false (programOf source) = true ∧
      (∀ settings (machine : Machine) isBreak,
        (machine.interpret settings (programOf source)).1 ≠ .stray isBreak) ∧
      ∀ rounds (session : Session),
        (session.runReadable rounds source).verdict = .accepted ∨
          (session.runReadable rounds source).verdict = .rejected ∨
          (session.runReadable rounds source).verdict = .cutOff .outOfRounds := by
  have henclosed : Stmt.jumpsEnclosedIn false (programOf source) = true :=
    Reading.jumpsEnclosedIn_program _ _
  refine ⟨henclosed, fun settings machine => Machine.interpret_ne_stray henclosed machine, ?_⟩
  intro rounds session
  exact Session.verdict_execute henclosed rounds _

end Lox

import Lox.Proofs.Reachability
import Lox.Proofs.ResolvedProgram

/-!
# Faults are raised where a run comes

A part of a program faults exactly if it raises the fault itself or calls for a part
that faults. So what a run reaches is neither too little nor too much: a run ends
because a name is not bound exactly if it reaches an occurrence of the name, looks
it up, and no scope binds it.
-/
namespace Lox

namespace Exec

variable {α β : Type} {settings : Settings} {machine : Machine} {fault : Fault}

/-- The action ends with a fault. -/
def Faults (a : Exec α) (machine : Machine) (fault : Fault) : Prop :=
  ∃ final, a machine = .error (.fault fault) final

theorem not_faults_of_ok {a : Exec α} {x : α} {final : Machine} (h : a machine = .ok x final) :
    ¬Faults a machine fault := by
  rintro ⟨other, hother⟩
  rw [h] at hother
  cases hother

theorem faults_bind {a : Exec α} {f : α → Exec β} : Faults (a >>= f) machine fault ↔
    Faults a machine fault ∨ ∃ x middle, a machine = .ok x middle ∧ Faults (f x) middle fault := by
  unfold Faults
  cases h : a machine with
  | ok x middle => simp [bind_of_ok h]
  | error interrupt middle => simp [bind_of_error h]

/-- An action that returns hands on to the next one. -/
theorem faults_bind_of_ok {a : Exec α} {f : α → Exec β} {x : α} {middle : Machine}
    (h : a machine = .ok x middle) :
    Faults (a >>= f) machine fault ↔ Faults (f x) middle fault := by
  unfold Faults
  rw [bind_of_ok h]

theorem not_faults_pure (x : α) : ¬Faults (pure x : Exec α) machine fault := not_faults_of_ok rfl

theorem not_faults_modify (change : Machine → Machine) :
    ¬Faults (modify change : Exec Unit) machine fault := not_faults_of_ok rfl

/-- A call faults if there is room for it and it faults then. -/
theorem faults_call {room : Nat} {action : Nat → Exec α} :
    Faults (call room action) machine fault ↔
      ∃ rest, room = rest + 1 ∧ Faults (action rest) machine fault := by
  cases room with
  | zero =>
    refine ⟨fun ⟨final, h⟩ => ?_, nofun⟩
    cases h
  | succ room => simp

theorem not_faults_log {room : Nat} {entry : Entry} :
    ¬Faults (log settings room entry) machine fault := by
  rintro ⟨final, h⟩
  cases (log_error h).1

theorem faults_throw {interrupt : Interrupt} :
    Faults (throw interrupt : Exec α) machine fault ↔ interrupt = .fault fault := by
  constructor
  · rintro ⟨final, h⟩
    cases h
    rfl
  · rintro rfl
    exact ⟨machine, rfl⟩

theorem faults_log_bind {room : Nat} {entry : Entry} {f : Unit → Exec α} :
    Faults (log settings room entry >>= f) machine fault ↔
      ∃ logged, log settings room entry machine = .ok () logged ∧ Faults (f ()) logged fault := by
  rw [faults_bind, or_iff_right not_faults_log]
  exact ⟨fun ⟨_, logged, h⟩ => ⟨logged, h⟩, fun ⟨logged, h⟩ => ⟨(), logged, h⟩⟩

/-- A form faults if there is room for its call and for the entry about it and it faults then. -/
theorem faults_form {room : Nat} {name : String} {action : Nat → Exec Unit} :
    Faults (form settings room name action) machine fault ↔
      ∃ rest logged, room = rest + 1 ∧ log settings rest (.execute name) machine = .ok () logged ∧
        Faults (action rest) logged fault := by
  unfold form
  simp only [faults_call, faults_log_bind, exists_and_left]

/-- A form that has been logged does what it asks for. -/
theorem faults_form_of_log {room : Nat} {name : String} {action : Nat → Exec Unit}
    {logged : Machine} (h : log settings room (.execute name) machine = .ok () logged) :
    Faults (form settings (room + 1) name action) machine fault ↔
      Faults (action room) logged fault := faults_bind_of_ok h

/-- An action that cannot fault changes nothing about the faults before it. -/
theorem faults_bind_left {a : Exec α} {f : α → Exec β}
    (h : ∀ x middle, ¬Faults (f x) middle fault) :
    Faults (a >>= f) machine fault ↔ Faults a machine fault := by
  rw [faults_bind]
  constructor
  · rintro (hfirst | ⟨x, middle, -, hsecond⟩)
    · exact hfirst
    · exact absurd hsecond (h x middle)
  · exact .inl

theorem faults_discard {a : Exec α} : Faults (discard a) machine fault ↔ Faults a machine fault :=
  faults_bind_left fun _ _ => not_faults_pure _

theorem faults_ofExcept {result : Except Fault α} :
    Faults (ofExcept result) machine fault ↔ result = .error fault := by
  cases result with
  | ok x => exact iff_of_false (not_faults_pure x) (by simp)
  | error other =>
    rw [ofExcept, faults_throw, Interrupt.fault.injEq, Except.error.injEq]

theorem ofExcept_eq_ok {result : Except Fault α} {x : α} {final : Machine} :
    ofExcept result machine = .ok x final ↔ result = .ok x ∧ final = machine := by
  cases result with
  | ok y =>
    change EStateM.Result.ok y machine = .ok x final ↔ _
    rw [EStateM.Result.ok.injEq, Except.ok.injEq, eq_comm (a := final)]
  | error other =>
    refine iff_of_false (fun h => ?_) (by simp)
    cases h

theorem faults_apply {operator : Origin → Except Fault α} :
    Faults (apply operator) machine fault ↔ operator (.computed machine.serial) = .error fault :=
  @faults_ofExcept α { machine with serial := machine.serial + 1 } fault _

theorem faults_inScope {room : Nat} {action : Exec Unit} :
    Faults (inScope settings room action) machine fault ↔
      ∃ entered, enterScope settings room machine = .ok () entered ∧
        Faults action entered fault := by
  have hrun : inScope settings room action machine = (enterScope settings room >>= fun _ =>
      leaving settings machine.environment.depth action) machine := rfl
  have hleaving (entered : Machine) :
      Faults (leaving settings machine.environment.depth action) entered fault ↔
        Faults action entered fault := by
    unfold Faults leaving
    cases action entered <;> simp
  unfold Faults at hleaving ⊢
  rw [hrun]
  cases henter : enterScope settings room machine with
  | ok _ entered => simp [bind_of_ok henter, hleaving]
  | error interrupt final =>
    obtain ⟨rfl, -⟩ := enterScope_error henter
    simp [bind_of_error henter]

/-- A block faults if its scope can be entered and its statements fault then. -/
theorem faults_block {room : Nat} {action : Nat → Exec Unit} :
    Faults (block settings room action) machine fault ↔
      ∃ rest entered, room = rest + 2 ∧ enterBlock settings room machine = .ok () entered ∧
        Faults (action rest) entered fault := by
  unfold block
  simp only [faults_form, faults_call, faults_inScope]
  constructor
  · rintro ⟨_, logged, rfl, hlog, rest, rfl, entered, henter, h⟩
    exact ⟨rest, entered, rfl, (bind_of_ok hlog).trans henter, h⟩
  · rintro ⟨rest, entered, rfl, henter, h⟩
    obtain ⟨_, logged, hlog, henter⟩ := bind_eq_ok.1 henter
    exact ⟨rest + 1, logged, rfl, hlog, rest, rfl, entered, henter, h⟩

/-- A scope is entered where there is room for the calls of its block. -/
theorem exists_of_enterBlock {room : Nat} {entered : Machine}
    (h : enterBlock settings room machine = .ok () entered) : ∃ rest, room = rest + 2 := by
  obtain ⟨_, rfl, h⟩ := call_eq_ok.1 h
  obtain ⟨_, _, -, h⟩ := bind_eq_ok.1 h
  obtain ⟨rest, rfl, -⟩ := call_eq_ok.1 h
  exact ⟨rest, rfl⟩

theorem faults_round {body : Exec Unit} :
    Faults (round body) machine fault ↔ Faults body machine fault := by
  unfold Faults round
  cases body machine with
  | ok x final => simp
  | error interrupt final => cases interrupt <;> simp

/-- A loop faults in its condition, in its body or in its step, whenever it is at its head. -/
theorem faults_loop {condition : Exec Bool} {body step : Exec Unit} {rounds : Nat} :
    Faults (loop condition body step rounds) machine fault ↔
      ∃ left head, AtHead condition body step rounds machine (left + 1) head ∧
        (Faults condition head fault ∨ ∃ tested, condition head = .ok true tested ∧
          (Faults (round body) tested fault ∨ ∃ ran, round body tested = .ok true ran ∧
            Faults step ran fault)) := by
  constructor
  · intro h
    induction rounds generalizing machine with
    | zero =>
      rw [loop, faults_throw] at h
      cases h
    | succ rounds ih =>
      rw [loop, faults_bind] at h
      rcases h with h | ⟨holds, tested, htested, h⟩
      · exact ⟨rounds, machine, .start, .inl h⟩
      cases holds with
      | false => exact absurd h (not_faults_pure ())
      | true =>
        rcases faults_bind.1 h with h | ⟨goesOn, ran, hran, h⟩
        · exact ⟨rounds, machine, .start, .inr ⟨tested, htested, .inl h⟩⟩
        cases goesOn with
        | false => exact absurd h (not_faults_pure ())
        | true =>
          rcases faults_bind.1 h with h | ⟨_, stepped, hstepped, h⟩
          · exact ⟨rounds, machine, .start, .inr ⟨tested, htested, .inr ⟨ran, hran, h⟩⟩⟩
          · obtain ⟨left, head, hhead, hfault⟩ := ih h
            exact ⟨left, head, .again htested hran hstepped hhead, hfault⟩
  · rintro ⟨left, head, hhead, hfault⟩
    generalize hleft : left + 1 = count at hhead
    induction hhead with
    | start =>
      subst hleft
      rw [loop]
      rcases hfault with h | ⟨tested, htested, h⟩
      · exact faults_bind.2 (.inl h)
      · refine (faults_bind_of_ok htested).2 (faults_bind.2 ?_)
        rcases h with h | ⟨ran, hran, h⟩
        · exact .inl h
        · exact .inr ⟨true, ran, hran, faults_bind.2 (.inl h)⟩
    | again htested hran hstepped _ ih =>
      rw [loop]
      refine (faults_bind_of_ok htested).2 ((faults_bind_of_ok hran).2 ?_)
      exact (faults_bind_of_ok hstepped).2 (ih hfault hleft)

end Exec

open Exec

variable {settings : Settings} {machine : Machine} {fault : Fault} {name : String}

theorem Exec.faults_condition_of_value {room : Nat} {e : Expr}
    (h : Faults (e.evaluate settings room) machine fault) :
    Faults (Exec.condition settings (room + 1) e) machine fault :=
  faults_call.2 ⟨room, rfl, faults_bind.2 (.inl h)⟩

/-- Statements in order fault where one of them does after all before it have returned. -/
theorem Stmt.faults_executeAll {room : Nat} {stmts : List Stmt} :
    Faults (Stmt.executeAll settings room stmts) machine fault ↔
      ∃ index stmt before, stmts[index]? = some stmt ∧
        Stmt.executeAll settings room (stmts.take index) machine = .ok () before ∧
        Faults (stmt.execute settings room) before fault := by
  constructor
  · intro h
    induction stmts generalizing machine with
    | nil => exact absurd h (not_faults_pure ())
    | cons stmt rest ih =>
      rcases faults_bind.1 h with h | ⟨_, middle, hstmt, h⟩
      · exact ⟨0, stmt, machine, rfl, rfl, h⟩
      · obtain ⟨index, other, before, hother, hbefore, hfault⟩ := ih h
        refine ⟨index + 1, other, before, hother, ?_, hfault⟩
        rw [List.take_succ_cons, executeAll]
        exact (bind_of_ok hstmt).trans hbefore
  · rintro ⟨index, stmt, before, hstmt, hbefore, hfault⟩
    induction stmts generalizing machine index with
    | nil => cases hstmt
    | cons first rest ih =>
      cases index with
      | zero =>
        cases hbefore
        cases hstmt
        exact faults_bind.2 (.inl hfault)
      | succ index =>
        rw [List.take_succ_cons, executeAll] at hbefore
        obtain ⟨_, middle, hfirst, hbefore⟩ := bind_eq_ok.1 hbefore
        exact (faults_bind_of_ok hfirst).2 (ih index hstmt hbefore)

/-- Runs a part of a program. -/
def Node.run (settings : Settings) : Node → Exec Unit
  | body room stmts => Stmt.executeAll settings room stmts
  | stmt room s => s.execute settings room
  | expr room e => discard (e.evaluate settings room)

/-- The part looks up a name: it is an occurrence of the name and, if it is an assignment, its value
has been found. -/
inductive Node.LooksUp (settings : Settings) (name : String) : Node → Machine → Prop where
  | ident {room token machine} : token.lexeme = name →
    LooksUp settings name (.expr (room + 1) (.ident token)) machine
  | assign {room token e machine value middle} : token.lexeme = name →
    e.evaluate settings room machine = .ok value middle →
      LooksUp settings name (.expr (room + 1) (.assign token e)) machine

/-- No scope binds the name. -/
def Environment.Unbound (env : Environment) (name : String) : Prop :=
  ∀ names ∈ env.nameSets, name ∉ names

/-- A part faults in a part that it calls for. -/
def Node.Passes (settings : Settings) (node : Node) (machine : Machine) (fault : Fault) : Prop :=
  ∃ turn child middle, node.child? turn = some child ∧ Calls settings node turn machine middle ∧
    Faults (child.run settings) middle fault

theorem Node.child?_step (room : Nat) (e : Expr) (inner : List Stmt) (step : Option Expr) :
    (stmt (room + 1) (.whileLoop e inner step)).child? .step = step.map (expr room) := by
  rcases room with _ | _ | room <;> cases step <;> rfl

/-- A fault in a part that is called for is a fault. -/
theorem Calls.faults {node child : Node} {turn : Turn} {middle : Machine}
    (hcall : Calls settings node turn machine middle) (hchild : node.child? turn = some child)
    (h : Faults (child.run settings) middle fault) : Faults (node.run settings) machine fault := by
  cases hcall with
  | item hbefore =>
    obtain ⟨stmt, hstmt, rfl⟩ := Option.map_eq_some_iff.1 hchild
    exact Stmt.faults_executeAll.2 ⟨_, stmt, middle, hstmt, hbefore, h⟩
  | expression hlog =>
    cases hchild
    rw [Node.run, Stmt.execute]
    exact (faults_form_of_log hlog).2 h
  | print hlog =>
    cases hchild
    rw [Node.run, Stmt.execute]
    exact (faults_form_of_log hlog).2 (faults_bind.2 (.inl (faults_discard.1 h)))
  | @initial _ _ e _ _ hlog =>
    cases e with
    | none => cases hchild
    | some e =>
      cases hchild
      rw [Node.run, Stmt.execute]
      exact (faults_form_of_log hlog).2 (faults_bind.2 (.inl (faults_discard.1 h)))
  | block henter =>
    obtain ⟨rest, rfl⟩ := exists_of_enterBlock henter
    cases hchild
    exact faults_block.2 ⟨rest, _, rfl, henter, h⟩
  | @thenCondition room _ _ _ _ hlog | @elseCondition room _ _ _ _ _ hlog =>
    cases room with
    | zero => cases hchild
    | succ room =>
      cases hchild
      have hcondition := faults_condition_of_value (faults_discard.1 h)
      rw [Node.run, Stmt.execute]
      exact (faults_form_of_log hlog).2 (faults_bind.2 (.inl hcondition))
  | thenBlock hlog htested hnoted henter | elseBlock hlog htested hnoted henter
  | elseAlternative hlog htested hnoted henter =>
    obtain ⟨rest, rfl⟩ := exists_of_enterBlock henter
    cases hchild
    rw [Node.run, Stmt.execute]
    refine (faults_form_of_log hlog).2 ((faults_bind_of_ok htested).2 ?_)
    exact (faults_bind_of_ok hnoted).2 (faults_block.2 ⟨rest, _, rfl, henter, h⟩)
  | @loopCondition room _ _ step _ _ hhead =>
    cases room with
    | zero => cases step <;> cases hchild
    | succ room =>
      cases hchild
      obtain ⟨logged, left, hlog, hhead⟩ := hhead
      have hcondition := faults_condition_of_value (faults_discard.1 h)
      rw [Node.run, Stmt.execute]
      exact (faults_form_of_log hlog).2 (faults_loop.2 ⟨left, middle, hhead, .inl hcondition⟩)
  | loopBlock hhead htested henter =>
    obtain ⟨rest, rfl⟩ := exists_of_enterBlock henter
    cases hchild
    obtain ⟨logged, left, hlog, hhead⟩ := hhead
    rw [Node.run, Stmt.execute]
    refine (faults_form_of_log hlog).2 (faults_loop.2 ⟨left, _, hhead, .inr ⟨_, htested, .inl ?_⟩⟩)
    exact faults_round.2 (faults_block.2 ⟨rest, _, rfl, henter, h⟩)
  | loopStep hhead htested hran =>
    rw [Node.child?_step] at hchild
    obtain ⟨e, rfl, rfl⟩ := Option.map_eq_some_iff.1 hchild
    obtain ⟨logged, left, hlog, hhead⟩ := hhead
    rw [Node.run, Stmt.execute]
    exact (faults_form_of_log hlog).2 (faults_loop.2
      ⟨left, _, hhead, .inr ⟨_, htested, .inr ⟨_, hran, h⟩⟩⟩)
  | grouping =>
    cases hchild
    exact h
  | assign | unary | binaryLeft | logicalLeft =>
    cases hchild
    exact faults_discard.2 (faults_bind.2 (.inl (faults_discard.1 h)))
  | binaryRight hleft =>
    cases hchild
    refine faults_discard.2 ((faults_bind_of_ok hleft).2 ?_)
    exact faults_bind.2 (.inl (faults_discard.1 h))
  | logicalRight hleft htruth hgoes =>
    cases hchild
    have hright := faults_discard.1 h
    refine faults_discard.2 ((faults_bind_of_ok hleft).2 ?_)
    rw [htruth]
    change Faults (if Operator.goesOn _ _ then _ else _) _ _
    rw [if_pos hgoes]
    exact faults_bind.2 (.inl hright)

section Undefined

theorem Operator.unary_ne_undefined {origin : Origin} {op : Token} {operand : Value} :
    Operator.unary origin op operand ≠ .error (.undefined name) := by
  unfold Operator.unary
  split
  · split <;> simp
  · split <;> simp
  · simp

theorem Operator.binary_ne_undefined {origin : Origin} {op : Token} {left right : Value} :
    Operator.binary origin op left right ≠ .error (.undefined name) := by
  unfold Operator.binary
  split
  · simp
  · simp
  · split
    · unfold Operator.numeric
      split
      case h_4 => split <;> simp
      all_goals simp
    · simp

theorem Operator.truth_ne_undefined {op : Token} {value : Value} :
    Operator.truth op value ≠ .error (.undefined name) := by
  cases value <;> simp [Operator.truth]

/-- A condition faults for want of a name if its expression does. -/
theorem Exec.faults_condition_undefined {room : Nat} {e : Expr}
    (h : Faults (Exec.condition settings room e) machine (.undefined name)) :
    ∃ rest, room = rest + 1 ∧ Faults (e.evaluate settings rest) machine (.undefined name) := by
  obtain ⟨rest, rfl, h⟩ := faults_call.1 h
  refine ⟨rest, rfl, (faults_bind_left fun value middle h => ?_).1 h⟩
  obtain ⟨logged, -, h⟩ := faults_log_bind.1 h
  cases value with
  | boolean b => exact not_faults_pure b h
  | _ => cases faults_throw.1 h

/-- An expression faults for want of a name where it looks the name up, or in an operand. -/
theorem Expr.looksUp_or_passes {room : Nat} {e : Expr}
    (hfault : Faults ((Node.expr room e).run settings) machine (.undefined name)) :
    ((Node.expr room e).LooksUp settings name machine ∧ machine.environment.Unbound name) ∨
      (Node.expr room e).Passes settings machine (.undefined name) := by
  rw [Node.run, faults_discard, evaluate, faults_call] at hfault
  obtain ⟨room, rfl, h⟩ := hfault
  cases e with
  | literal value => exact absurd h (not_faults_pure value)
  | grouping inner => exact .inr ⟨.right, _, _, rfl, .grouping, faults_discard.2 h⟩
  | ident token =>
    have hget := faults_ofExcept.1 ((faults_bind_of_ok rfl).1 h)
    obtain ⟨hname, hunbound⟩ := Environment.get_eq_error_iff.1 hget
    obtain rfl := Fault.undefined.inj hname
    exact .inl ⟨.ident rfl, hunbound⟩
  | assign token value =>
    rcases faults_bind.1 h with h | ⟨result, middle, hvalue, h⟩
    · exact .inr ⟨.right, _, _, rfl, .assign, faults_discard.2 h⟩
    · have hrest := (faults_bind_of_ok rfl).1 h
      have hlast (environment : Environment) (machine : Machine) : ¬Faults (do
          modify ({ · with environment })
          Exec.log settings room (.assign token.lexeme result)
          return result) machine (.undefined name) := by
        intro h
        obtain ⟨_, -, h⟩ := faults_log_bind.1 ((faults_bind_of_ok rfl).1 h)
        exact not_faults_pure result h
      have hassign := faults_ofExcept.1 ((faults_bind_left hlast).1 hrest)
      obtain ⟨hname, hunbound⟩ := Environment.assign_eq_error_iff.1 hassign
      obtain rfl := Fault.undefined.inj hname
      rw [(value.steady_evaluate settings room).ok hvalue] at hunbound
      exact .inl ⟨.assign rfl hvalue, hunbound⟩
  | unary op right =>
    rcases faults_bind.1 h with h | ⟨operand, middle, -, h⟩
    · exact .inr ⟨.right, _, _, rfl, .unary, faults_discard.2 h⟩
    · exact absurd (faults_apply.1 h) Operator.unary_ne_undefined
  | binary left op right =>
    rcases faults_bind.1 h with h | ⟨first, between, hleft, h⟩
    · exact .inr ⟨.left, _, _, rfl, .binaryLeft, faults_discard.2 h⟩
    rcases faults_bind.1 h with h | ⟨second, last, -, h⟩
    · exact .inr ⟨.right, _, _, rfl, .binaryRight hleft, faults_discard.2 h⟩
    · exact absurd (faults_apply.1 h) Operator.binary_ne_undefined
  | logical left op right =>
    obtain ⟨room, rfl, h⟩ := faults_call.1 h
    rcases faults_bind.1 h with h | ⟨first, between, hleft, hrest⟩
    · exact .inr ⟨.left, _, _, rfl, .logicalLeft, faults_discard.2 h⟩
    rcases faults_bind.1 hrest with h | ⟨truth, other, htruth, hbranch⟩
    · exact absurd (faults_ofExcept.1 h) Operator.truth_ne_undefined
    obtain ⟨hvalue, rfl⟩ := ofExcept_eq_ok.1 htruth
    split at hbranch
    case isFalse => exact absurd hbranch (not_faults_pure _)
    case isTrue hgoes =>
      rcases faults_bind.1 hbranch with h | ⟨second, last, -, hlast⟩
      · exact .inr ⟨.right, _, _, rfl, .logicalRight hleft hvalue hgoes, faults_discard.2 h⟩
      rcases faults_bind.1 hlast with h | ⟨_, _, -, h⟩
      · exact absurd (faults_ofExcept.1 h) Operator.truth_ne_undefined
      · exact absurd h (not_faults_pure _)

/-- A statement faults for want of a name in an expression or a block of its own. -/
theorem Stmt.passes_of_undefined {room : Nat} {stmt : Stmt}
    (h : Faults (stmt.execute settings room) machine (.undefined name)) :
    (Node.stmt room stmt).Passes settings machine (.undefined name) := by
  rw [execute.eq_def] at h
  cases stmt with
  | block body =>
    obtain ⟨rest, entered, rfl, henter, h⟩ := faults_block.1 h
    exact ⟨.block, _, _, rfl, .block henter, h⟩
  | expression e =>
    obtain ⟨rest, logged, rfl, hlog, h⟩ := faults_form.1 h
    exact ⟨.value, _, _, rfl, .expression hlog, h⟩
  | print e =>
    obtain ⟨rest, logged, rfl, hlog, h⟩ := faults_form.1 h
    have hvalue := (faults_bind_left fun _ _ => not_faults_modify _).1 h
    exact ⟨.value, _, _, rfl, .print hlog, faults_discard.2 hvalue⟩
  | varDecl token initial =>
    obtain ⟨rest, logged, rfl, hlog, h⟩ := faults_form.1 h
    have hdefine (value : Value) (machine : Machine) : ¬Faults (do
        modify fun machine =>
          { machine with environment := machine.environment.define token.lexeme value }
        Exec.log settings rest (.define token.lexeme value)) machine (.undefined name) :=
      fun h => not_faults_log ((faults_bind_of_ok rfl).1 h)
    cases initial with
    | none => exact absurd ((faults_bind_of_ok rfl).1 h) (hdefine _ _)
    | some e =>
      have hvalue := (faults_bind_left hdefine).1 h
      exact ⟨.value, _, _, rfl, .initial hlog, faults_discard.2 hvalue⟩
  | ifThen condition body =>
    obtain ⟨rest, logged, rfl, hlog, h⟩ := faults_form.1 h
    rcases faults_bind.1 h with h | ⟨taken, tested, htested, h⟩
    · obtain ⟨rest, rfl, hvalue⟩ := faults_condition_undefined h
      exact ⟨.condition, _, _, rfl, .thenCondition hlog, faults_discard.2 hvalue⟩
    obtain ⟨noted, hnoted, hbranch⟩ := faults_log_bind.1 h
    cases taken with
    | false => exact absurd hbranch (not_faults_pure ())
    | true =>
      obtain ⟨rest, entered, rfl, henter, h⟩ := faults_block.1 hbranch
      exact ⟨.block, _, _, rfl, .thenBlock hlog htested hnoted henter, h⟩
  | ifElse condition body alternative =>
    obtain ⟨rest, logged, rfl, hlog, h⟩ := faults_form.1 h
    rcases faults_bind.1 h with h | ⟨taken, tested, htested, h⟩
    · obtain ⟨rest, rfl, hvalue⟩ := faults_condition_undefined h
      exact ⟨.condition, _, _, rfl, .elseCondition hlog, faults_discard.2 hvalue⟩
    obtain ⟨noted, hnoted, hbranch⟩ := faults_log_bind.1 h
    cases taken with
    | false =>
      obtain ⟨rest, entered, rfl, henter, h⟩ := faults_block.1 hbranch
      exact ⟨.alternative, _, _, rfl, .elseAlternative hlog htested hnoted henter, h⟩
    | true =>
      obtain ⟨rest, entered, rfl, henter, h⟩ := faults_block.1 hbranch
      exact ⟨.block, _, _, rfl, .elseBlock hlog htested hnoted henter, h⟩
  | whileLoop condition body step =>
    obtain ⟨rest, logged, rfl, hlog, h⟩ := faults_form.1 h
    obtain ⟨left, head, hhead, h⟩ := faults_loop.1 h
    have hhead : AtHead settings rest condition body step machine head :=
      ⟨logged, left, hlog, hhead⟩
    rcases h with h | ⟨tested, htested, h⟩
    · obtain ⟨rest, rfl, hvalue⟩ := faults_condition_undefined h
      exact ⟨.condition, _, _, rfl, .loopCondition hhead, faults_discard.2 hvalue⟩
    rcases h with h | ⟨ran, hran, h⟩
    · obtain ⟨rest, entered, rfl, henter, h⟩ := faults_block.1 (faults_round.1 h)
      exact ⟨.block, _, _, rfl, .loopBlock hhead htested henter, h⟩
    cases step with
    | none => exact absurd h (not_faults_pure ())
    | some e =>
      exact ⟨.step, _, _, Node.child?_step _ _ _ _, .loopStep hhead htested hran, h⟩
  | functionDecl | returnValue | classDecl | breakLoop | continueLoop =>
    obtain ⟨rest, logged, rfl, hlog, h⟩ := faults_form.1 h
    cases faults_throw.1 h
  | empty | error =>
    obtain ⟨rest, logged, rfl, hlog, h⟩ := faults_form.1 h
    exact absurd h (not_faults_pure ())

theorem Node.looksUp_or_passes {node : Node}
    (h : Faults (node.run settings) machine (.undefined name)) :
    (node.LooksUp settings name machine ∧ machine.environment.Unbound name) ∨
      node.Passes settings machine (.undefined name) := by
  cases node with
  | body room stmts =>
    obtain ⟨index, stmt, before, hstmt, hbefore, hfault⟩ := Stmt.faults_executeAll.1 h
    have hchild : (Node.body room stmts).child? (.item index) = some (.stmt room stmt) := by
      rw [Node.child?, hstmt]
      rfl
    exact .inr ⟨.item index, .stmt room stmt, before, hchild, .item hbefore, hfault⟩
  | stmt room stmt => exact .inr (Stmt.passes_of_undefined h)
  | expr room e => exact Expr.looksUp_or_passes h

/-- How much text a part has. -/
noncomputable def Node.size : Node → Nat
  | body _ stmts => sizeOf stmts
  | stmt _ s => sizeOf s
  | expr _ e => sizeOf e

theorem Node.size_lt_of_child? {node child : Node} {turn : Turn}
    (h : node.child? turn = some child) : child.size < node.size := by
  unfold Node.child? at h
  split at h
  case h_1 room stmts index =>
    obtain ⟨stmt, hstmt, rfl⟩ := Option.map_eq_some_iff.1 h
    exact List.sizeOf_lt_of_mem (List.mem_of_getElem? hstmt)
  all_goals cases h <;> simp [Node.size] <;> omega

/-- A part that faults for want of a name comes to look the name up. -/
theorem Node.exists_reaches_of_undefined {node : Node}
    (h : Faults (node.run settings) machine (.undefined name)) :
    ∃ path last final, Reaches settings node machine path last final ∧
      last.LooksUp settings name final ∧ final.environment.Unbound name := by
  induction hsize : node.size using Nat.strong_induction_on generalizing node machine with
  | _ size ih =>
    rcases node.looksUp_or_passes h with ⟨hlooks, hunbound⟩ | hpasses
    · exact ⟨[], node, machine, .here, hlooks, hunbound⟩
    · obtain ⟨turn, child, middle, hchild, hcall, h⟩ := hpasses
      have hlt : child.size < size := hsize ▸ node.size_lt_of_child? hchild
      obtain ⟨path, last, final, hreaches, hlooks, hunbound⟩ := ih child.size hlt h rfl
      exact ⟨turn :: path, last, final, .inside hchild hcall hreaches, hlooks, hunbound⟩

theorem Node.LooksUp.faults {node : Node} (h : node.LooksUp settings name machine)
    (hunbound : machine.environment.Unbound name) :
    Faults (node.run settings) machine (.undefined name) := by
  cases h with
  | ident hname =>
    subst hname
    refine faults_discard.2 ((faults_bind_of_ok rfl).2 (faults_ofExcept.2 ?_))
    exact Environment.get_eq_error_iff.2 ⟨rfl, hunbound⟩
  | @assign room token e _ value middle hname hvalue =>
    subst hname
    have hassign : middle.environment.assign token.lexeme value =
        .error (.undefined token.lexeme) := by
      refine Environment.assign_eq_error_iff.2 ⟨rfl, ?_⟩
      rw [(e.steady_evaluate settings room).ok hvalue]
      exact hunbound
    refine faults_discard.2 ((faults_bind_of_ok hvalue).2 ((faults_bind_of_ok rfl).2 ?_))
    exact faults_bind.2 (.inl (faults_ofExcept.2 hassign))

/-- A fault where a run comes is the fault of the run. -/
theorem Reaches.faults {node last : Node} {path : List Turn} {final : Machine}
    (h : Reaches settings node machine path last final)
    (hfault : Faults (last.run settings) final fault) :
    Faults (node.run settings) machine fault := by
  induction h with
  | here => exact hfault
  | inside hchild hcall _ ih => exact hcall.faults hchild (ih hfault)

/-- A run ends for want of a name exactly if it comes to look the name up where no scope binds
it. -/
theorem Node.faults_undefined_iff (node : Node) :
    Faults (node.run settings) machine (.undefined name) ↔
      ∃ path last final, Reaches settings node machine path last final ∧
        last.LooksUp settings name final ∧ final.environment.Unbound name := by
  constructor
  · exact exists_reaches_of_undefined
  · rintro ⟨path, last, final, hreaches, hlooks, hunbound⟩
    exact hreaches.faults (hlooks.faults hunbound)

end Undefined

end Lox

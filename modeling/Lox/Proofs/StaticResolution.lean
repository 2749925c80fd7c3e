import Lox.Proofs.ReachedFaults

/-!
# Names resolved by the text

The names in scope at a position of a program are known from its text. So it is
known which scope a name is looked up in, and whether looking it up is a fault. A
program and its resolved form run in the same way.
-/
namespace Lox

namespace Exec

variable {α β : Type} {sets : List (Finset String)}

/-- Actions that do the same on machines where `sets` are in scope. -/
def Agree (sets : List (Finset String)) (a b : Exec α) : Prop :=
  ∀ machine : Machine, machine.environment.nameSets = sets → b machine = a machine

theorem agree_rfl (a : Exec α) : Agree sets a a := fun _ _ => rfl

variable {a b : Exec α} {f g : α → Exec β}

theorem Agree.bind {names : Finset String} (h : Agree sets a b) (ha : Declares names a)
    (hf : ∀ x, Agree (declare names sets) (f x) (g x)) : Agree sets (a >>= f) (b >>= g) := by
  intro machine hsets
  have hfirst := h machine hsets
  cases hrun : a machine with
  | ok x middle =>
    have hmiddle := ha.ok hrun
    rw [hsets] at hmiddle
    rw [bind_of_ok hrun, bind_of_ok (hfirst.trans hrun)]
    exact hf x middle hmiddle
  | error interrupt middle => rw [bind_of_error hrun, bind_of_error (hfirst.trans hrun)]

theorem Agree.bind_steady (h : Agree sets a b) (ha : Steady a)
    (hf : ∀ x, Agree sets (f x) (g x)) : Agree sets (a >>= f) (b >>= g) := by
  refine h.bind ha fun x => ?_
  rw [declare_empty]
  exact hf x

/-- Actions may differ in what they make of the machine if it is the same on theirs. -/
theorem agree_get {f g : Machine → Exec α}
    (h : ∀ machine : Machine, machine.environment.nameSets = sets → g machine = f machine) :
    Agree sets (get >>= f) (get >>= g) := by
  intro machine hsets
  exact congrFun (h machine hsets) machine

theorem Agree.discard (h : Agree sets a b) (ha : Steady a) : Agree sets (discard a) (discard b) :=
  h.bind_steady ha fun _ => agree_rfl _

theorem Agree.call {room : Nat} {f g : Nat → Exec α} (h : ∀ rest, Agree sets (f rest) (g rest)) :
    Agree sets (call room f) (call room g) := by
  cases room with
  | zero => exact agree_rfl _
  | succ room => exact h room

theorem Agree.form {settings : Settings} {room : Nat} {name : String} {f g : Nat → Exec Unit}
    (h : ∀ rest, Agree sets (f rest) (g rest)) :
    Agree sets (form settings room name f) (form settings room name g) :=
  .call fun rest => (agree_rfl _).bind_steady (steady_log settings rest _) fun _ => h rest

theorem Agree.inScope {settings : Settings} {room : Nat} {a b : Exec Unit}
    (h : Agree (∅ :: sets) a b) :
    Agree sets (inScope settings room a) (inScope settings room b) := by
  intro machine hsets
  change (enterScope settings room >>= fun _ => leaving settings _ b) machine =
    (enterScope settings room >>= fun _ => leaving settings _ a) machine
  cases henter : enterScope settings room machine with
  | ok _ entered =>
    have hentered := nameSets_of_enterScope settings henter
    rw [hsets] at hentered
    rw [bind_of_ok henter, bind_of_ok henter]
    unfold leaving
    rw [h entered hentered]
  | error interrupt final => rw [bind_of_error henter, bind_of_error henter]

theorem Agree.block {settings : Settings} {room : Nat} {f g : Nat → Exec Unit}
    (h : ∀ rest, Agree (∅ :: sets) (f rest) (g rest)) :
    Agree sets (block settings room f) (block settings room g) :=
  .form fun _ => .call fun rest => (h rest).inScope

theorem Agree.round {a b : Exec Unit} (h : Agree sets a b) :
    Agree sets (round a) (round b) := by
  intro machine hsets
  unfold Exec.round
  rw [h machine hsets]

theorem Agree.loop {condition condition' : Exec Bool} {body body' step step' : Exec Unit}
    (hcondition : Agree sets condition condition') (hsteady : Steady condition)
    (hbody : Agree sets body body') (hsteadyBody : Steady body)
    (hstep : Agree sets step step') (hsteadyStep : Steady step) (rounds : Nat) :
    Agree sets (loop condition body step rounds) (loop condition' body' step' rounds) := by
  induction rounds with
  | zero => exact agree_rfl _
  | succ rounds ih =>
    refine hcondition.bind_steady hsteady fun holds => ?_
    cases holds with
    | false => exact agree_rfl _
    | true =>
      refine hbody.round.bind_steady hsteadyBody.round fun goesOn => ?_
      cases goesOn with
      | false => exact agree_rfl _
      | true => exact hstep.bind_steady hsteadyStep fun _ => ih

end Exec

open Exec

variable (settings : Settings) (sets : List (Finset String))

/-- A resolved expression has the value of the expression. -/
theorem Expr.agree_resolve (e : Expr) (room : Nat) :
    Agree sets (e.evaluate settings room) ((e.resolve sets).evaluate settings room) := by
  have hsteady (e : Expr) (room : Nat) : Steady (e.evaluate settings room) :=
    e.steady_evaluate settings room
  induction e generalizing room with
  | literal value => exact .call fun room => agree_rfl _
  | grouping inner ih => exact .call fun room => ih room
  | ident name =>
    refine .call fun room => agree_get ?_
    intro machine hsets
    rw [machine.environment.get_eq_getAt, hsets]
  | assign name value ih =>
    refine .call fun room => (ih room).bind_steady (hsteady value room) fun value => agree_get ?_
    intro machine hsets
    rw [machine.environment.assign_eq_assignAt, hsets]
  | unary op right ih =>
    exact .call fun room => (ih room).bind_steady (hsteady right room) fun right => agree_rfl _
  | binary left op right ihl ihr =>
    exact .call fun room => (ihl room).bind_steady (hsteady left room) fun left =>
      (ihr room).bind_steady (hsteady right room) fun right => agree_rfl _
  | logical left op right ihl ihr =>
    refine .call fun room => .call fun room => ?_
    refine (ihl room).bind_steady (hsteady left room) fun value => ?_
    refine (agree_rfl _).bind_steady (steady_ofExcept _) fun first => ?_
    split
    · exact (ihr room).bind_steady (hsteady right room) fun value => agree_rfl _
    · exact agree_rfl _

theorem Exec.agree_condition (room : Nat) (e : Expr) :
    Agree sets (Exec.condition settings room e)
      (Resolved.condition settings room (e.resolve sets)) :=
  .call fun room => (e.agree_resolve settings sets room).bind_steady
    (e.steady_evaluate settings room) fun _ => agree_rfl _

theorem Exec.agree_optional (room : Nat) (e : Option Expr) :
    Agree sets (Exec.optional settings room e)
      (Resolved.optional settings room (e.map (Expr.resolve sets))) := by
  cases e with
  | none => exact agree_rfl _
  | some e => exact (e.agree_resolve settings sets room).discard (e.steady_evaluate settings room)

mutual

/-- A resolved statement runs as the statement does. -/
theorem Stmt.agree_resolve (room : Nat) (stmt : Stmt) (sets : List (Finset String)) :
    Agree sets (stmt.execute settings room) ((stmt.resolve sets).execute settings room) := by
  cases stmt with
  | expression e =>
    exact .form fun room =>
      (e.agree_resolve settings sets room).discard (e.steady_evaluate settings room)
  | print e =>
    exact .form fun room => (e.agree_resolve settings sets room).bind_steady
      (e.steady_evaluate settings room) fun _ => agree_rfl _
  | varDecl name initial =>
    refine .form fun room => ?_
    cases initial with
    | none => exact agree_rfl _
    | some e =>
      exact (e.agree_resolve settings sets room).bind_steady (e.steady_evaluate settings room)
        fun _ => agree_rfl _
  | block body => exact .block fun room => Stmt.agree_resolveAll room body (∅ :: sets)
  | ifThen condition body =>
    refine .form fun room => ?_
    refine (agree_condition settings sets room condition).bind_steady
      (steady_condition settings room condition) fun taken => ?_
    refine (agree_rfl _).bind_steady (steady_log settings room _) fun _ => ?_
    cases taken with
    | false => exact agree_rfl _
    | true => exact .block fun room => Stmt.agree_resolveAll room body (∅ :: sets)
  | ifElse condition body alternative =>
    refine .form fun room => ?_
    refine (agree_condition settings sets room condition).bind_steady
      (steady_condition settings room condition) fun taken => ?_
    refine (agree_rfl _).bind_steady (steady_log settings room _) fun _ => ?_
    cases taken with
    | false => exact .block fun room => Stmt.agree_resolveAll room alternative (∅ :: sets)
    | true => exact .block fun room => Stmt.agree_resolveAll room body (∅ :: sets)
  | whileLoop condition body step =>
    exact .form fun room => (agree_condition settings sets room condition).loop
      (steady_condition settings room condition)
      (.block fun room => Stmt.agree_resolveAll room body (∅ :: sets)) (steady_body room body)
      (agree_optional settings sets room step) (steady_optional settings room step) settings.rounds
  | _ => exact agree_rfl _

/-- Resolved statements run as the statements do. -/
theorem Stmt.agree_resolveAll (room : Nat) (body : List Stmt) (sets : List (Finset String)) :
    Agree sets (Stmt.executeAll settings room body)
      (Resolved.Stmt.executeAll settings room (Stmt.resolveAll sets body)) := by
  cases body with
  | nil => exact agree_rfl _
  | cons stmt rest =>
    exact (Stmt.agree_resolve room stmt sets).bind (stmt.declares_execute settings room) fun _ =>
      Stmt.agree_resolveAll room rest (declare stmt.declared sets)

end

/-- A run that has ended with the report that nothing binds a name. -/
def Exec.IsUndefined {α : Type} (name : String) : EStateM.Result Interrupt Machine α → Prop
  | .error (.fault fault) _ => fault.message = "Undefined variable '" ++ name ++ "'."
  | _ => False

/-- Evaluating a name finds it in the scope that `sets` tell, and nowhere if they do not have it. -/
def ReadsIn (settings : Settings) (sets : List (Finset String)) (room : Nat) (name : Token)
    (machine : Machine) : Prop :=
  (IsUndefined name.lexeme ((Expr.ident name).evaluate settings (room + 1) machine) ↔
      ∀ names ∈ sets, name.lexeme ∉ names) ∧
    ∀ k, hops sets name.lexeme = some k →
      ∃ scope value, machine.environment.scopes[k]? = some scope ∧
        scope.get? name.lexeme = some value ∧
        (Expr.ident name).evaluate settings (room + 1) machine = .ok value machine

/-- An assignment, when its value has been found, sets the name in the scope that `sets` tell and then
logs that, and sets it nowhere if they do not have it. -/
def WritesIn (settings : Settings) (sets : List (Finset String)) (room : Nat) (name : Token)
    (e : Expr) (machine : Machine) : Prop :=
  ∀ value middle, e.evaluate settings room machine = .ok value middle →
    (IsUndefined name.lexeme ((Expr.assign name e).evaluate settings (room + 1) machine) ↔
        ∀ names ∈ sets, name.lexeme ∉ names) ∧
      ∀ k, hops sets name.lexeme = some k →
        ∃ environment : Environment,
          environment.scopes =
            middle.environment.scopes.modify k (fun scope => scope.insert name.lexeme value) ∧
          (Expr.assign name e).evaluate settings (room + 1) machine =
            (do Exec.log settings room (.assign name.lexeme value); return value)
              { middle with environment }

theorem readsIn_nameSets (room : Nat) (name : Token) (machine : Machine) :
    ReadsIn settings machine.environment.nameSets room name machine := by
  have heval : (Expr.ident name).evaluate settings (room + 1) machine =
      ofExcept (machine.environment.getAt (hops machine.environment.nameSets name.lexeme)
        name.lexeme) machine := by
    rw [← Environment.get_eq_getAt]
    rfl
  unfold ReadsIn
  rw [heval, ← hops_eq_none_iff]
  cases hhops : hops machine.environment.nameSets name.lexeme with
  | none => exact ⟨iff_of_true rfl rfl, by simp⟩
  | some k =>
    obtain ⟨scope, value, hscope, hvalue⟩ := Environment.exists_scope_of_hops hhops
    have hget : machine.environment.getAt (some k) name.lexeme = .ok value := by
      simp [Environment.getAt, hscope, hvalue]
    rw [hget]
    refine ⟨iff_of_false id (Option.some_ne_none k), ?_⟩
    intro k' hk'
    obtain rfl := Option.some.inj hk'
    exact ⟨scope, value, hscope, hvalue, rfl⟩

theorem writesIn_nameSets (room : Nat) (name : Token) (e : Expr) (machine : Machine) :
    WritesIn settings machine.environment.nameSets room name e machine := by
  intro value middle hvalue
  have hsets := (e.steady_evaluate settings room).ok hvalue
  have heval : (Expr.assign name e).evaluate settings (room + 1) machine =
      (ofExcept (middle.environment.assignAt (hops machine.environment.nameSets name.lexeme)
        name.lexeme value) >>= fun environment => do
          modify ({ · with environment })
          Exec.log settings room (.assign name.lexeme value)
          return value) middle := by
    rw [← hsets, ← Environment.assign_eq_assignAt]
    exact bind_of_ok hvalue
  rw [heval, ← hops_eq_none_iff]
  cases hhops : hops machine.environment.nameSets name.lexeme with
  | none => exact ⟨iff_of_true rfl rfl, by simp⟩
  | some k =>
    obtain ⟨environment, hassign, hscopes⟩ :=
      middle.environment.exists_assignAt k name.lexeme value
    rw [hassign]
    constructor
    · refine iff_of_false ?_ (Option.some_ne_none k)
      change ¬ IsUndefined name.lexeme
        ((Exec.log settings room (.assign name.lexeme value) >>= fun _ => pure value)
          { middle with environment })
      -- all that can go wrong is that there is no room to log the assignment
      rcases log_cases settings room (.assign name.lexeme value) with heq | heq | heq <;>
        rw [heq] <;> exact id
    · intro k' hk'
      obtain rfl := Option.some.inj hk'
      exact ⟨environment, hscopes, rfl⟩

/-- A run of a program ends for want of a name exactly if it comes to look the name up at a position
where the text has it in no scope. -/
theorem Stmt.undefined_iff_located (settings : Settings) (room : Nat) (program : List Stmt)
    (machine : Machine) (name : String) :
    Faults (Stmt.executeAll settings room program) machine (.undefined name) ↔
      ∃ path node sets final, Reaches settings (.body room program) machine path node final ∧
        (Node.body room program).locate machine.environment.nameSets path = some (node, sets) ∧
        node.LooksUp settings name final ∧ ∀ names ∈ sets, name ∉ names := by
  refine (Node.body room program).faults_undefined_iff.trans ?_
  constructor
  · rintro ⟨path, node, final, hreaches, hlooks, hunbound⟩
    exact ⟨path, node, _, final, hreaches, hreaches.locate_eq, hlooks, hunbound⟩
  · rintro ⟨path, node, sets, final, hreaches, hlocate, hlooks, hunbound⟩
    have hsets : sets = final.environment.nameSets := by
      have hsome := hlocate.symm.trans hreaches.locate_eq
      exact (Prod.mk.inj (Option.some.inj hsome)).2
    subst hsets
    exact ⟨path, node, final, hreaches, hlooks, hunbound⟩

/-- Wherever a run of a program comes, the names in scope are those that the text tells, and a name
that occurs there is looked up in the scope that the text tells. A run ends for want of a name
exactly where the text has it in no scope, and the resolved program runs as the program does. -/
theorem Stmt.names_resolved (settings : Settings) (room : Nat) (program : List Stmt)
    (machine : Machine) :
    (∀ path node final, Reaches settings (.body room program) machine path node final →
      ∃ sets,
        (Node.body room program).locate machine.environment.nameSets path = some (node, sets) ∧
        final.environment.nameSets = sets ∧
        (∀ room name, node = .expr (room + 1) (.ident name) →
          ReadsIn settings sets room name final) ∧
        ∀ room name e, node = .expr (room + 1) (.assign name e) →
          WritesIn settings sets room name e final) ∧
      (∀ name, Faults (Stmt.executeAll settings room program) machine (.undefined name) ↔
        ∃ path node sets final, Reaches settings (.body room program) machine path node final ∧
          (Node.body room program).locate machine.environment.nameSets path = some (node, sets) ∧
          node.LooksUp settings name final ∧ ∀ names ∈ sets, name ∉ names) ∧
      Resolved.Stmt.executeAll settings room
          (Stmt.resolveAll machine.environment.nameSets program) machine =
        Stmt.executeAll settings room program machine := by
  refine ⟨?_, Stmt.undefined_iff_located settings room program machine, ?_⟩
  · intro path node final h
    refine ⟨final.environment.nameSets, h.locate_eq, rfl, ?_, ?_⟩
    · rintro room name -
      exact readsIn_nameSets settings room name final
    · rintro room name e -
      exact writesIn_nameSets settings room name e final
  · exact Stmt.agree_resolveAll settings room program _ machine rfl

/-- A name that a loop tests and sets. -/
def toggle : Token := ⟨.identifier, "go", some "go", 1⟩

/-- The statements of `var go = true; while (go) { var last = go; go = false; }`. -/
def toggled : List Stmt :=
  [.varDecl toggle (some (.literal (.boolean true))),
    .whileLoop (.ident toggle)
      [.varDecl ⟨.identifier, "last", some "last", 1⟩ (some (.ident toggle)),
        .expression (.assign toggle (.literal (.boolean false)))] none]

/-- The second time the condition is tested, the name declared in the body is not in scope. -/
theorem toggled_condition_resolved :
    ∃ final, Reaches ⟨0, 8, .standard⟩ (.body 996 toggled) (.start .empty 0) [.item 1, .condition]
        (.expr 994 (.ident toggle)) final ∧
      final.environment.get "go" = .ok (.boolean false) ∧
      ReadsIn ⟨0, 8, .standard⟩ [{"go"}] 993 toggle final := by
  have hreach : Reaches ⟨0, 8, .standard⟩ (.body 996 toggled) (.start .empty 0)
      [.item 1, .condition] (.expr 994 (.ident toggle))
      ⟨⟨⟨[("go", .boolean false)]⟩, []⟩, 0, []⟩ :=
    .inside rfl (.item rfl)
      (.inside rfl (.loopCondition ⟨_, 6, rfl, .again rfl rfl rfl .start⟩) .here)
  obtain ⟨sets, hlocate, -, hreads, -⟩ := (Stmt.names_resolved _ _ _ _).1 _ _ _ hreach
  have hsets : sets = [{"go"}] := by
    have hsome := congrArg (Option.map Prod.snd) hlocate
    exact (Option.some.inj hsome).symm
  rw [← hsets]
  exact ⟨_, hreach, rfl, hreads 993 toggle rfl⟩

end Lox

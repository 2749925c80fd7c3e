import Mathlib.Data.Finset.Lattice.Lemmas
import Lox.Execution
import Lox.Proofs.Actions

/-!
# The names in scope

The names of a scope chain are a set for every scope, the innermost first. Only a
declaration adds a name, and only to the innermost set. Whatever else runs, and
however it ends, leaves all sets as they are: a scope that is entered is closed again,
and an assignment needs a scope that binds its name already. What ends for want of room
may leave a scope open inside the others, which goes with the scope around it.
-/
namespace Lox

/-- The set of names that a scope binds. -/
def Scope.nameSet (scope : Scope) : Finset String := scope.names.toFinset

/-- The sets of names in a scope chain. -/
def Environment.nameSets (env : Environment) : List (Finset String) :=
  env.scopes.map Scope.nameSet

/-- Sets of names after the declaration of some names in the innermost scope. -/
def declare (names : Finset String) : List (Finset String) → List (Finset String)
  | [] => []
  | own :: outer => (own ∪ names) :: outer

@[simp] theorem declare_empty (sets : List (Finset String)) : declare ∅ sets = sets := by
  cases sets <;> simp [declare]

@[simp] theorem declare_declare (first second : Finset String) (sets : List (Finset String)) :
    declare second (declare first sets) = declare (first ∪ second) sets := by
  cases sets <;> simp [declare, Finset.union_assoc]

namespace Scope

theorem mem_nameSet (scope : Scope) (name : String) : name ∈ scope.nameSet ↔ scope.binds name := by
  simp [nameSet, binds]

theorem get?_isSome (scope : Scope) (name : String) :
    (scope.get? name).isSome ↔ name ∈ scope.nameSet := by
  simp only [get?, nameSet, names, List.mem_toFinset, List.mem_map, List.lookup_isSome_iff]
  constructor
  · rintro ⟨pair, hmem, heq⟩
    exact ⟨pair, hmem, (eq_of_beq heq).symm⟩
  · rintro ⟨pair, hmem, heq⟩
    exact ⟨pair, hmem, beq_iff_eq.2 heq.symm⟩

theorem nameSet_insert (scope : Scope) (name : String) (value : Value) :
    (scope.insert name value).nameSet = scope.nameSet ∪ {name} := by
  ext other
  rw [← get?_isSome, get?_insert, Finset.mem_union, Finset.mem_singleton, ← get?_isSome]
  by_cases h : other = name <;> simp [h]

end Scope

namespace Environment

@[simp] theorem nameSets_push (env : Environment) : env.push.nameSets = ∅ :: env.nameSets := rfl

theorem nameSets_pop {env : Environment} {own : Finset String} {outer : List (Finset String)}
    (h : env.nameSets = own :: outer) (houter : outer ≠ []) : env.pop.nameSets = outer := by
  obtain ⟨scope, scopes⟩ := env
  obtain ⟨-, rfl⟩ := List.cons.inj h
  cases scopes with
  | nil => exact absurd rfl houter
  | cons next scopes => rfl

/-- When scopes have been closed, the names of those around them are left. -/
theorem nameSets_closeTo {env : Environment} {opened sets : List (Finset String)} {depth : Nat}
    (h : env.nameSets = opened ++ sets) (hdepth : sets.length = depth + 1) :
    (env.closeTo depth).nameSets = sets := by
  have hlength : env.depth + 1 = opened.length + sets.length := by
    rw [← List.length_append, ← h]
    simp [nameSets, scopes, Environment.depth]
  induction opened using List.reverseRecOn generalizing sets depth with
  | nil => rwa [closeTo_of_le (by simp at hlength; omega)]
  | append_singleton opened own ih =>
    rw [List.append_assoc] at h
    rw [List.length_append, List.length_singleton] at hlength
    have hinner : (env.closeTo (depth + 1)).nameSets = [own] ++ sets :=
      ih h (by simp [hdepth]) (by simp; omega)
    rw [closeTo_eq_pop (by omega)]
    exact nameSets_pop hinner (List.ne_nil_of_length_eq_add_one hdepth)

@[simp] theorem nameSets_define (env : Environment) (name : String) (value : Value) :
    (env.define name value).nameSets = declare {name} env.nameSets := by
  change (env.own.insert name value).nameSet :: _ = (env.own.nameSet ∪ {name}) :: _
  rw [Scope.nameSet_insert]
  rfl

theorem map_nameSet_assignIn {name : String} {value : Value} {before after : List Scope}
    (h : assignIn name value before = some after) :
    after.map Scope.nameSet = before.map Scope.nameSet := by
  induction before generalizing after with
  | nil => cases h
  | cons scope rest ih =>
    by_cases hb : scope.binds name
    · rw [assignIn, if_pos hb] at h
      obtain rfl := Option.some.inj h
      have hmem : {name} ⊆ scope.nameSet :=
        Finset.singleton_subset_iff.2 ((scope.mem_nameSet name).2 hb)
      rw [List.map_cons, List.map_cons, Scope.nameSet_insert, Finset.union_eq_left.2 hmem]
    · rw [assignIn, if_neg hb] at h
      obtain ⟨tail, ht, rfl⟩ := Option.map_eq_some_iff.1 h
      rw [List.map_cons, List.map_cons, ih ht]

theorem nameSets_assign {env env' : Environment} {name : String} {value : Value}
    (h : env.assign name value = .ok env') : env'.nameSets = env.nameSets := by
  unfold assign at h
  split at h
  · next own outer hin =>
    obtain rfl := Except.ok.inj h
    exact map_nameSet_assignIn hin
  · cases h

end Environment

namespace Exec

variable {α β : Type}

/-- How a run ended that started with `sets`: if it has a result, all names are declared, and
otherwise some of them. A run that ended for want of room may have left scopes open. -/
def Ended (names : Finset String) (sets : List (Finset String)) :
    EStateM.Result Interrupt Machine α → Prop
  | .ok _ machine => machine.environment.nameSets = declare names sets
  | .error interrupt machine => ∃ part ⊆ names, ∃ opened,
      machine.environment.nameSets = opened ++ declare part sets ∧
        (interrupt = .tooDeep ∨ opened = [])

/-- An action that declares names when it returns, and no others in any case. -/
def Declares (names : Finset String) (a : Exec α) : Prop :=
  ∀ machine : Machine, Ended names machine.environment.nameSets (a machine)

/-- An action that declares nothing. -/
abbrev Steady (a : Exec α) : Prop := Declares ∅ a

variable {names more : Finset String} {a : Exec α} {f : α → Exec β} {machine final : Machine}

theorem Declares.ok (h : Declares names a) {x : α} (ha : a machine = .ok x final) :
    final.environment.nameSets = declare names machine.environment.nameSets := by
  have hended := h machine
  rw [ha] at hended
  exact hended

theorem Declares.error (h : Declares names a) {interrupt : Interrupt}
    (ha : a machine = .error interrupt final) :
    ∃ part ⊆ names, ∃ opened,
      final.environment.nameSets = opened ++ declare part machine.environment.nameSets ∧
        (interrupt = .tooDeep ∨ opened = []) := by
  have hended := h machine
  rw [ha] at hended
  exact hended

theorem Steady.ok (h : Steady a) {x : α} (ha : a machine = .ok x final) :
    final.environment.nameSets = machine.environment.nameSets := by
  rw [Declares.ok h ha, declare_empty]

theorem ended_ok {sets : List (Finset String)} (x : α)
    (h : machine.environment.nameSets = sets) : Ended ∅ sets (.ok x machine) := by
  rw [Ended, h, declare_empty]

theorem ended_error {sets : List (Finset String)} (interrupt : Interrupt)
    (h : machine.environment.nameSets = sets) :
    Ended ∅ sets (.error interrupt machine : EStateM.Result Interrupt Machine α) :=
  ⟨∅, Finset.Subset.refl ∅, [], by rw [h, declare_empty, List.nil_append], .inr rfl⟩

/-- Names declared by one action after another are declared together. -/
theorem Declares.bind (h : Declares names a) (hf : ∀ x, Declares more (f x)) :
    Declares (names ∪ more) (a >>= f) := by
  intro machine
  cases ha : a machine with
  | ok x middle =>
    have hmiddle := h.ok ha
    rw [bind_of_ok ha]
    cases hfx : f x middle with
    | ok y final =>
      have hfinal := (hf x).ok hfx
      rw [Ended, hfinal, hmiddle, declare_declare]
    | error interrupt final =>
      obtain ⟨part, hpart, opened, hfinal, hopened⟩ := (hf x).error hfx
      refine ⟨names ∪ part, Finset.union_subset_union_right hpart, opened, ?_, hopened⟩
      rw [hfinal, hmiddle, declare_declare]
  | error interrupt final =>
    obtain ⟨part, hpart, hended⟩ := h.error ha
    rw [bind_of_error ha]
    exact ⟨part, hpart.trans Finset.subset_union_left, hended⟩

theorem Steady.bind (h : Steady a) (hf : ∀ x, Declares names (f x)) :
    Declares names (a >>= f) := by
  have hboth := Declares.bind h hf
  rwa [Finset.empty_union] at hboth

theorem steady_pure (x : α) : Steady (pure x : Exec α) := fun _ => ended_ok x rfl

theorem steady_throw (interrupt : Interrupt) : Steady (throw interrupt : Exec α) :=
  fun _ => ended_error interrupt rfl

theorem steady_get : Steady (get : Exec Machine) := fun machine => ended_ok machine rfl

theorem steady_modify {change : Machine → Machine}
    (h : ∀ machine, (change machine).environment.nameSets = machine.environment.nameSets) :
    Steady (modify change) := fun machine => ended_ok () (h machine)

theorem Steady.discard (h : Steady a) : Steady (discard a) := h.bind fun _ => steady_pure _

theorem steady_ofExcept (result : Except Fault α) : Steady (ofExcept result) := by
  cases result with
  | ok x => exact steady_pure x
  | error fault => exact steady_throw (.fault fault)

theorem steady_apply (operator : Origin → Except Fault α) : Steady (apply operator) := by
  intro machine
  exact steady_ofExcept (operator (.computed machine.serial))
    { machine with serial := machine.serial + 1 }

theorem Declares.call {room : Nat} {action : Nat → Exec α} (h : ∀ rest, Declares names (action rest)) :
    Declares names (call room action) := by
  cases room with
  | zero =>
    exact fun machine => ⟨∅, Finset.empty_subset names, [], by rw [declare_empty]; rfl, .inr rfl⟩
  | succ room => exact h room

theorem steady_log (settings : Settings) (room : Nat) (entry : Entry) :
    Steady (log settings room entry) := by
  have hmodify : Steady (modify (Machine.log settings.verbosity entry)) :=
    steady_modify fun machine => by rw [environment_log]
  rcases log_cases settings room entry with heq | heq | heq <;> rw [heq]
  · exact hmodify
  · exact steady_throw .tooDeep
  · exact hmodify.bind fun _ => steady_throw .tooDeep

/-- The actions that assign a name and write so to the log. -/
theorem steady_assign (settings : Settings) (room : Nat) (name : String) (value : Value) :
    Steady (do
      let environment ← ofExcept ((← get).environment.assign name value)
      modify ({ · with environment })
      log settings room (.assign name value)
      return value) := by
  intro machine
  change Ended ∅ _ ((ofExcept (machine.environment.assign name value) >>= fun environment => do
    modify ({ · with environment })
    log settings room (.assign name value)
    return value) machine)
  cases h : machine.environment.assign name value with
  | ok environment =>
    have hrest := Steady.bind (steady_log settings room (.assign name value))
      (fun _ => steady_pure value) { machine with environment }
    rw [← Environment.nameSets_assign h]
    exact hrest
  | error fault => exact ended_error (.fault fault) rfl

section Scopes

variable (settings : Settings) {room : Nat}

theorem nameSets_of_enterScope {u : Unit} (h : enterScope settings room machine = .ok u final) :
    final.environment.nameSets = ∅ :: machine.environment.nameSets := by
  rw [enterScope_ok h, environment_log]
  rfl

theorem nameSets_leaveScope {opened : List (Finset String)} {depth : Nat}
    {sets : List (Finset String)} (h : machine.environment.nameSets = opened ++ sets)
    (hdepth : sets.length = depth + 1) :
    (machine.leaveScope settings.verbosity depth).environment.nameSets = sets := by
  rw [Machine.leaveScope, environment_log]
  exact Environment.nameSets_closeTo h hdepth

/-- What is declared in a scope is gone with the scope, and so are the scopes left open in it. -/
theorem Declares.inScope {action : Exec Unit} (h : Declares names action) :
    Steady (inScope settings room action) := by
  intro machine
  have hdepth : machine.environment.nameSets.length = machine.environment.depth + 1 := by
    simp [Environment.nameSets, Environment.scopes, Environment.depth]
  change Ended ∅ _ ((enterScope settings room >>= fun _ =>
    leaving settings machine.environment.depth action) machine)
  cases henter : enterScope settings room machine with
  | ok _ entered =>
    have hentered := nameSets_of_enterScope settings henter
    rw [bind_of_ok henter]
    unfold leaving
    cases hrun : action entered with
    | ok _ final =>
      have hfinal := h.ok hrun
      rw [hentered] at hfinal
      change _ = [_] ++ machine.environment.nameSets at hfinal
      exact ended_ok () (nameSets_leaveScope settings hfinal hdepth)
    | error interrupt final =>
      obtain ⟨part, -, opened, hfinal, -⟩ := h.error hrun
      rw [hentered, declare, ← List.singleton_append, ← List.append_assoc] at hfinal
      exact ended_error interrupt (nameSets_leaveScope settings hfinal hdepth)
  | error interrupt final =>
    obtain ⟨rfl, -⟩ := enterScope_error henter
    have hopened := environment_of_enterScope_error henter
    rw [bind_of_error henter]
    refine ⟨∅, Finset.Subset.refl ∅, [∅], ?_, .inl rfl⟩
    rw [hopened, declare_empty]
    rfl

end Scopes

theorem Steady.round {body : Exec Unit} (h : Steady body) : Steady (round body) := by
  intro machine
  unfold Exec.round
  cases hrun : body machine with
  | ok _ final => exact ended_ok true (Steady.ok h hrun)
  | error interrupt final =>
    obtain ⟨part, hpart, opened, hfinal, hopened⟩ := Declares.error h hrun
    rw [Finset.subset_empty.1 hpart, declare_empty] at hfinal
    have hjump (hjump : interrupt ≠ .tooDeep) :
        final.environment.nameSets = machine.environment.nameSets := by
      rwa [hopened.resolve_left hjump] at hfinal
    cases interrupt with
    | breakLoop => exact ended_ok false (hjump nofun)
    | continueLoop => exact ended_ok true (hjump nofun)
    | _ => exact ⟨∅, Finset.Subset.refl ∅, opened, by rwa [declare_empty], hopened⟩

theorem Steady.loop {condition : Exec Bool} {body step : Exec Unit} (hcondition : Steady condition)
    (hbody : Steady body) (hstep : Steady step) (rounds : Nat) :
    Steady (loop condition body step rounds) := by
  induction rounds with
  | zero => exact steady_throw .outOfRounds
  | succ rounds ih =>
    refine Steady.bind hcondition fun holds => ?_
    cases holds with
    | false => exact steady_pure ()
    | true =>
      refine Steady.bind hbody.round fun goesOn => ?_
      cases goesOn with
      | false => exact steady_pure ()
      | true => exact Steady.bind hstep fun _ => ih

end Exec

open Exec

variable (settings : Settings)

/-- Evaluation declares nothing. -/
theorem Expr.steady_evaluate (e : Expr) (room : Nat) : Steady (e.evaluate settings room) := by
  induction e generalizing room with
  | literal value => exact .call fun room => steady_pure value
  | grouping inner ih => exact .call fun room => ih room
  | ident name => exact .call fun room => steady_get.bind fun machine => steady_ofExcept _
  | assign name value ih =>
    exact .call fun room => (ih room).bind fun value =>
      steady_assign settings room name.lexeme value
  | unary op right ih => exact .call fun room => (ih room).bind fun right => steady_apply _
  | binary left op right ihl ihr =>
    exact .call fun room => (ihl room).bind fun left => (ihr room).bind fun right => steady_apply _
  | logical left op right ihl ihr =>
    refine .call fun room => .call fun room => (ihl room).bind fun value =>
      (steady_ofExcept _).bind fun first => ?_
    split
    · exact (ihr room).bind fun value => (steady_ofExcept _).bind fun second => steady_pure _
    · exact steady_pure _

theorem Exec.steady_condition (room : Nat) (e : Expr) : Steady (Exec.condition settings room e) := by
  refine .call fun room => (e.steady_evaluate settings room).bind fun value =>
    (steady_log settings room _).bind fun _ => ?_
  cases value with
  | boolean b => exact steady_pure b
  | _ => exact steady_throw _

theorem Exec.steady_optional (room : Nat) (e : Option Expr) :
    Steady (Exec.optional settings room e) := by
  cases e with
  | none => exact steady_pure ()
  | some e => exact (e.steady_evaluate settings room).discard

theorem Exec.Declares.form {names : Finset String} {action : Nat → Exec Unit}
    (h : ∀ room, Declares names (action room)) (room : Nat) (name : String) :
    Declares names (Exec.form settings room name action) :=
  .call fun room => (steady_log settings room _).bind fun _ => h room

theorem Exec.Declares.block {names : Finset String} {action : Nat → Exec Unit}
    (h : ∀ room, Declares names (action room)) (room : Nat) :
    Steady (Exec.block settings room action) :=
  .form settings (fun _ => .call fun room => (h room).inScope settings) room _

/-- The name that a statement declares where it stands. -/
def Stmt.declared : Stmt → Finset String
  | .varDecl name _ => {name.lexeme}
  | _ => ∅

/-- The names that statements of a list declare where the list stands. -/
def Stmt.declaredIn : List Stmt → Finset String
  | [] => ∅
  | stmt :: rest => stmt.declared ∪ Stmt.declaredIn rest

theorem Exec.declares_define (room : Nat) (name : String) (value : Value) :
    Declares {name} (do
      modify fun machine =>
        { machine with environment := machine.environment.define name value }
      Exec.log settings room (.define name value)) := by
  have hdefine : Declares {name} (modify fun machine : Machine =>
      { machine with environment := machine.environment.define name value }) :=
    fun machine => machine.environment.nameSets_define name value
  have hboth := hdefine.bind fun _ => steady_log settings room (.define name value)
  rwa [Finset.union_empty] at hboth

mutual

/-- A statement declares its name, if it is a declaration. -/
theorem Stmt.declares_execute (room : Nat) (stmt : Stmt) :
    Declares stmt.declared (stmt.execute settings room) := by
  cases stmt with
  | expression e => exact .form settings (fun room => (e.steady_evaluate settings room).discard) _ _
  | print e =>
    refine .form settings (fun room => (e.steady_evaluate settings room).bind fun value => ?_) _ _
    exact steady_modify fun machine => rfl
  | varDecl name initial =>
    refine .form settings (fun room => ?_) _ _
    cases initial with
    | none => exact (steady_pure _).bind fun value => declares_define settings room _ value
    | some e =>
      exact (e.steady_evaluate settings room).bind fun value =>
        declares_define settings room _ value
  | block body => exact .block settings (fun room => Stmt.declares_executeAll room body) _
  | ifThen condition body =>
    refine .form settings (fun room => ?_) _ _
    refine (steady_condition settings room condition).bind fun taken => ?_
    refine (steady_log settings room _).bind fun _ => ?_
    cases taken with
    | false => exact steady_pure ()
    | true => exact .block settings (fun room => Stmt.declares_executeAll room body) _
  | ifElse condition body alternative =>
    refine .form settings (fun room => ?_) _ _
    refine (steady_condition settings room condition).bind fun taken => ?_
    refine (steady_log settings room _).bind fun _ => ?_
    cases taken with
    | false => exact .block settings (fun room => Stmt.declares_executeAll room alternative) _
    | true => exact .block settings (fun room => Stmt.declares_executeAll room body) _
  | whileLoop condition body step =>
    exact .form settings (fun room => (steady_condition settings room condition).loop
      (.block settings (fun room => Stmt.declares_executeAll room body) _)
      (steady_optional settings room step) _) _ _
  | functionDecl | returnValue | classDecl | breakLoop | continueLoop =>
    exact .form settings (fun _ => steady_throw _) _ _
  | empty | error => exact .form settings (fun _ => steady_pure ()) _ _

/-- Statements in order declare the names of those that are declarations. -/
theorem Stmt.declares_executeAll (room : Nat) (body : List Stmt) :
    Declares (Stmt.declaredIn body) (Stmt.executeAll settings room body) := by
  cases body with
  | nil => exact steady_pure ()
  | cons stmt rest =>
    exact (Stmt.declares_execute room stmt).bind fun _ => Stmt.declares_executeAll room rest

end

end Lox

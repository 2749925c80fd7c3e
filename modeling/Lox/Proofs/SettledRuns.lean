import Mathlib.Order.Defs.Unbundled
import Lox.Proofs.NameSets

/-!
# What holds over a run

A relation between machines that is reflexive and transitive holds over a sequence of
actions if it holds over each of them. So it holds over a run if it holds over the steps
of a run, which are listed once, as the fields of a structure.

A statement goes back to the scope it began in, however it ends, with one exception. Where
there is room to open a scope but none to log that, the scope stays open. So the machine
that a run out of room has left is looked at as it is when the scopes left open are closed,
which is what every statement around it does. Where a statement has room for its own
scope, none is left open. For a run out of room another relation may hold than for the
others.
-/
namespace Lox

theorem Environment.closeTo_closeTo {env : Environment} {depth : Nat} (h : depth < env.depth) :
    (env.closeTo (depth + 1)).closeTo depth = env.closeTo depth := by
  have hdepth : (env.closeTo (depth + 1)).depth = depth + 1 := depth_closeTo h
  rw [closeTo_eq_pop h, closeTo_eq_pop (by omega), closeTo_of_le (Nat.le_of_eq hdepth)]

namespace Machine

theorem closeTo_of_le {machine : Machine} {depth : Nat} (h : machine.environment.depth ≤ depth) :
    machine.closeTo depth = machine := by
  rw [closeTo, Environment.closeTo_of_le h]

/-- A machine as deep as one that has opened a scope. -/
theorem depth_of_openScope {verbosity : Nat} {entry : Entry} {machine last : Machine}
    (h : last.environment.depth = (machine.openScope.log verbosity entry).environment.depth) :
    last.environment.depth = machine.environment.depth + 1 := by
  rw [h, Exec.environment_log]
  rfl

theorem depth_leaveScope {verbosity depth : Nat} {machine : Machine}
    (h : depth ≤ machine.environment.depth) :
    (machine.leaveScope verbosity depth).environment.depth = depth := by
  rw [leaveScope, Exec.environment_log]
  exact Environment.depth_closeTo h

theorem leaveScope_closeTo {machine : Machine} {depth : Nat} (h : depth < machine.environment.depth)
    (verbosity : Nat) :
    (machine.closeTo (depth + 1)).leaveScope verbosity depth = machine.leaveScope verbosity depth := by
  simp only [leaveScope, closeTo, Environment.closeTo_closeTo h]

end Machine

/-- A reflexive and transitive relation of machines that are equally deep. -/
class KeepsDepth (R : Machine → Machine → Prop) : Prop extends IsPreorder Machine R where
  depth_eq {first last : Machine} : R first last → last.environment.depth = first.environment.depth

/-- Beside a relation for runs that come to their end, one for runs that are cut off. It holds where
the first does, and it holds over two runs if the first holds over the first of them. -/
class CutShort (R S : Machine → Machine → Prop) : Prop extends KeepsDepth R where
  of_kept {first last : Machine} : R first last → S first last
  after {first middle last : Machine} : R first middle → S middle last → S first last

instance (R : Machine → Machine → Prop) [KeepsDepth R] : CutShort R R where
  of_kept := id
  after := IsTrans.trans _ _ _

namespace Exec

variable {α β : Type} {R S : Machine → Machine → Prop}

/-- However the action ends, the machine it leaves is related to the one it began on. -/
def Leaves (R : Machine → Machine → Prop) (a : Exec α) : Prop :=
  ∀ machine, R machine (runOn machine a).2

/-- A run that began on a machine has ended on a machine that is related to it. If it ended for want of
room, it may have left scopes open where that is allowed, and the machine is related to it by the
second relation when these are closed. -/
def Settled (mayLeave : Prop) (R S : Machine → Machine → Prop) (machine : Machine) :
    EStateM.Result Interrupt Machine α → Prop
  | .error .tooDeep final =>
    machine.environment.depth ≤ final.environment.depth ∧
      (mayLeave ∨ final.environment.depth = machine.environment.depth) ∧
      S machine (final.closeTo machine.environment.depth)
  | .ok _ final | .error _ final => R machine final

/-- However the action ends, it has settled. -/
def Settles (mayLeave : Prop) (R S : Machine → Machine → Prop) (a : Exec α) : Prop :=
  ∀ machine, Settled mayLeave R S machine (a machine)

/-! ### Actions that leave no scope open -/

section Leaves

theorem Leaves.mono {S : Machine → Machine → Prop} {a : Exec α} (h : Leaves R a)
    (hRS : ∀ first last, R first last → S first last) : Leaves S a :=
  fun machine => hRS _ _ (h machine)

theorem leaves_modify {change : Machine → Machine} (h : ∀ machine, R machine (change machine)) :
    Leaves R (modify change) := h

variable [IsPreorder Machine R]

theorem leaves_pure (x : α) : Leaves R (pure x : Exec α) := fun machine => refl machine

theorem leaves_throw (interrupt : Interrupt) : Leaves R (throw interrupt : Exec α) :=
  fun machine => refl machine

theorem leaves_get : Leaves R (get : Exec Machine) := fun machine => refl machine

theorem leaves_ofExcept (result : Except Fault α) : Leaves R (ofExcept result) := by
  cases result with
  | ok x => exact leaves_pure x
  | error fault => exact leaves_throw (.fault fault)

theorem Leaves.bind {a : Exec α} {f : α → Exec β} (h : Leaves R a) (hf : ∀ x, Leaves R (f x)) :
    Leaves R (a >>= f) := by
  intro machine
  have hfirst := h machine
  unfold runOn at hfirst ⊢
  cases ha : a machine with
  | ok x middle =>
    rw [ha] at hfirst
    rw [bind_of_ok ha]
    exact IsTrans.trans _ _ _ hfirst (hf x middle)
  | error interrupt middle =>
    rw [ha] at hfirst
    rw [bind_of_error ha]
    exact hfirst

theorem Leaves.discard {a : Exec α} (h : Leaves R a) : Leaves R (discard a) :=
  h.bind fun _ => leaves_pure _

theorem Leaves.call {room : Nat} {action : Nat → Exec α} (h : ∀ rest < room, Leaves R (action rest)) :
    Leaves R (call room action) := by
  cases room with
  | zero => exact leaves_throw .tooDeep
  | succ rest => exact h rest (Nat.lt_succ_self rest)

theorem leaves_log {settings : Settings} {entry : Entry}
    (h : ∀ machine : Machine, R machine (machine.log settings.verbosity entry)) (room : Nat) :
    Leaves R (log settings room entry) := by
  rcases log_cases settings room entry with heq | heq | heq <;> rw [heq]
  · exact leaves_modify h
  · exact leaves_throw .tooDeep
  · exact (leaves_modify h).bind fun _ => leaves_throw .tooDeep

theorem leaves_apply (hserial : ∀ machine, R machine { machine with serial := machine.serial + 1 })
    (operator : Origin → Except Fault α) : Leaves R (apply operator) := by
  intro machine
  have hlast := leaves_ofExcept (R := R) (operator (.computed machine.serial))
    { machine with serial := machine.serial + 1 }
  exact IsTrans.trans _ _ _ (hserial machine) hlast

end Leaves

/-! ### Actions that may leave scopes open -/

section Settles

variable {mayLeave : Prop} {machine middle final : Machine}

theorem settled_error_iff {interrupt : Interrupt} :
    Settled mayLeave R S machine (.error interrupt final : EStateM.Result Interrupt Machine α) ↔
      Settled mayLeave R S machine (.error interrupt final : EStateM.Result Interrupt Machine β) := by
  cases interrupt <;> exact Iff.rfl

theorem Settles.mono {R' S' : Machine → Machine → Prop} {a : Exec α} (h : Settles mayLeave R S a)
    (hR : ∀ first last, R first last → R' first last)
    (hS : ∀ first last, S first last → S' first last) : Settles mayLeave R' S' a := by
  intro machine
  have hended := h machine
  cases hrun : a machine with
  | ok x final =>
    rw [hrun] at hended
    exact hR _ _ hended
  | error interrupt final =>
    rw [hrun] at hended
    cases interrupt with
    | tooDeep => exact ⟨hended.1, hended.2.1, hS _ _ hended.2.2⟩
    | _ => exact hR _ _ hended

theorem Settles.round {body : Exec Unit} (h : Settles mayLeave R S body) :
    Settles mayLeave R S (round body) := by
  intro machine
  have hbody := h machine
  unfold Exec.round
  cases hrun : body machine with
  | ok _ final =>
    rw [hrun] at hbody
    exact hbody
  | error interrupt final =>
    rw [hrun] at hbody
    cases interrupt <;> exact hbody

/-- A run that leaves no scope open has settled. -/
theorem settled_of_cut (hdepth : final.environment.depth = machine.environment.depth)
    (h : S machine final) :
    Settled mayLeave R S machine (.error .tooDeep final : EStateM.Result Interrupt Machine α) := by
  refine ⟨Nat.le_of_eq hdepth.symm, .inr hdepth, ?_⟩
  rwa [Machine.closeTo_of_le (Nat.le_of_eq hdepth)]

variable [CutShort R S]

theorem settled_of_error (h : R machine final) (interrupt : Interrupt) :
    Settled mayLeave R S machine (.error interrupt final : EStateM.Result Interrupt Machine α) := by
  cases interrupt with
  | tooDeep => exact settled_of_cut (KeepsDepth.depth_eq h) (CutShort.of_kept h)
  | _ => exact h

theorem Leaves.settles {a : Exec α} (h : Leaves R a) : Settles mayLeave R S a := by
  intro machine
  have hleft := h machine
  unfold runOn at hleft
  cases hrun : a machine with
  | ok x final =>
    rw [hrun] at hleft
    exact hleft
  | error interrupt final =>
    rw [hrun] at hleft
    exact settled_of_error hleft interrupt

/-- Where no scope may be left open, none is. -/
theorem Settles.leaves {a : Exec α} (h : Settles False R S a) : Leaves S a := by
  intro machine
  have hended := h machine
  unfold runOn
  cases hrun : a machine with
  | ok x final =>
    rw [hrun] at hended
    exact CutShort.of_kept hended
  | error interrupt final =>
    rw [hrun] at hended
    cases interrupt with
    | tooDeep =>
      obtain ⟨-, hdepth, hrel⟩ := hended
      rwa [Machine.closeTo_of_le (Nat.le_of_eq (hdepth.resolve_left id))] at hrel
    | _ => exact CutShort.of_kept hended

omit [CutShort R S] in
/-- Only a run out of room leaves scopes open. -/
theorem Settles.of_not_tooDeep {a : Exec α} (h : Settles mayLeave R S a)
    (hended : (runOn machine a).1 ≠ .error .tooDeep) : R machine (runOn machine a).2 := by
  have hsettled := h machine
  unfold runOn at hended ⊢
  cases hrun : a machine with
  | ok x final =>
    rw [hrun] at hsettled
    exact hsettled
  | error interrupt final =>
    rw [hrun] at hsettled hended
    cases interrupt with
    | tooDeep => exact absurd rfl hended
    | _ => exact hsettled

/-- The machines are related when the scopes left open are closed. -/
theorem Settles.closed {a : Exec α} (h : Settles mayLeave R S a) (machine : Machine) :
    machine.environment.depth ≤ (runOn machine a).2.environment.depth ∧
      S machine ((runOn machine a).2.closeTo machine.environment.depth) := by
  have hkept {final : Machine} (hrel : R machine final) :
      machine.environment.depth ≤ final.environment.depth ∧
        S machine (final.closeTo machine.environment.depth) := by
    have hdepth := KeepsDepth.depth_eq hrel
    refine ⟨Nat.le_of_eq hdepth.symm, ?_⟩
    rw [Machine.closeTo_of_le (Nat.le_of_eq hdepth)]
    exact CutShort.of_kept hrel
  have hended := h machine
  unfold runOn
  cases hrun : a machine with
  | ok x final =>
    rw [hrun] at hended
    exact hkept hended
  | error interrupt final =>
    rw [hrun] at hended
    cases interrupt with
    | tooDeep => exact ⟨hended.1, hended.2.2⟩
    | _ => exact hkept hended

theorem Settled.after {result : EStateM.Result Interrupt Machine α}
    (h : Settled mayLeave R S middle result) (hfirst : R machine middle) :
    Settled mayLeave R S machine result := by
  cases result with
  | ok x final => exact IsTrans.trans _ _ _ hfirst h
  | error interrupt final =>
    cases interrupt with
    | tooDeep =>
      obtain ⟨hle, hleft, hrel⟩ := h
      rw [KeepsDepth.depth_eq hfirst] at hle hleft hrel
      exact ⟨hle, hleft, CutShort.after hfirst hrel⟩
    | _ => exact IsTrans.trans _ _ _ hfirst h

theorem Settles.bind {a : Exec α} {f : α → Exec β} (h : Settles mayLeave R S a)
    (hf : ∀ x, Settles mayLeave R S (f x)) : Settles mayLeave R S (a >>= f) := by
  intro machine
  have hfirst := h machine
  cases ha : a machine with
  | ok x middle =>
    rw [ha] at hfirst
    rw [bind_of_ok ha]
    exact (hf x middle).after hfirst
  | error interrupt middle =>
    rw [ha] at hfirst
    rw [bind_of_error ha]
    exact settled_error_iff.1 hfirst

theorem settles_pure (x : α) : Settles mayLeave R S (pure x : Exec α) := (leaves_pure x).settles

theorem settles_throw (interrupt : Interrupt) : Settles mayLeave R S (throw interrupt : Exec α) :=
  (leaves_throw interrupt).settles

theorem Settles.call {room : Nat} {action : Nat → Exec α}
    (h : ∀ rest, room = rest + 1 → Settles mayLeave R S (action rest)) :
    Settles mayLeave R S (call room action) := by
  cases room with
  | zero => exact settles_throw .tooDeep
  | succ rest => exact h rest rfl

theorem Settles.loop {condition : Exec Bool} {body step : Exec Unit}
    (hcondition : Settles mayLeave R S condition) (hbody : Settles mayLeave R S body)
    (hstep : Settles mayLeave R S step) (rounds : Nat) :
    Settles mayLeave R S (loop condition body step rounds) := by
  induction rounds with
  | zero => exact settles_throw .outOfRounds
  | succ rounds ih =>
    refine hcondition.bind fun holds => ?_
    cases holds with
    | false => exact settles_pure ()
    | true =>
      refine hbody.round.bind fun goesOn => ?_
      cases goesOn with
      | false => exact settles_pure ()
      | true => exact hstep.bind fun _ => ih

end Settles

end Exec

/-! ### Evaluation -/

open Exec

/-- The names that an expression assigns to. -/
def Expr.assigned : Expr → Finset String
  | .literal _ | .ident _ => ∅
  | .unary _ right => right.assigned
  | .binary left _ right | .logical left _ right => left.assigned ∪ right.assigned
  | .grouping inner => inner.assigned
  | .assign name value => {name.lexeme} ∪ value.assigned

namespace Exec

variable {R : Machine → Machine → Prop} [IsPreorder Machine R]

/-- A name that nothing binds is not set; otherwise it is, and that is logged. -/
theorem leaves_store {settings : Settings} {name : String} {value : Value}
    (hassign : ∀ (machine : Machine) {environment : Environment},
      machine.environment.assign name value = .ok environment → R machine { machine with environment })
    (hlog : ∀ machine : Machine, R machine (machine.log settings.verbosity (.assign name value)))
    (room : Nat) :
    Leaves R (do
      let environment ← ofExcept ((← get).environment.assign name value)
      modify ({ · with environment })
      log settings room (.assign name value)
      return value) := by
  intro machine
  change R machine (runOn machine (ofExcept (machine.environment.assign name value) >>=
    fun environment => do
      modify ({ · with environment })
      log settings room (.assign name value)
      return value)).2
  cases h : machine.environment.assign name value with
  | ok environment =>
    have hrest := (leaves_log hlog room).bind (fun _ => leaves_pure value)
      { machine with environment }
    exact IsTrans.trans _ _ _ (hassign machine h) hrest
  | error fault => exact refl machine

end Exec

/-- Evaluation does to a machine what operators and the assignments in the expression do. -/
theorem Expr.leaves_evaluate {R : Machine → Machine → Prop} [IsPreorder Machine R]
    {settings : Settings}
    (hserial : ∀ machine, R machine { machine with serial := machine.serial + 1 })
    (hlog : ∀ (machine : Machine) name value,
      R machine (machine.log settings.verbosity (.assign name value))) (e : Expr)
    (hassign : ∀ name ∈ e.assigned, ∀ (machine : Machine) {value : Value}
      {environment : Environment}, machine.environment.assign name value = .ok environment →
        R machine { machine with environment }) (room : Nat) :
    Leaves R (e.evaluate settings room) := by
  induction e generalizing room with
  | literal value => exact .call fun _ _ => leaves_pure value
  | grouping inner ih => exact .call fun rest _ => ih hassign rest
  | ident name => exact .call fun _ _ => leaves_get.bind fun machine => leaves_ofExcept _
  | assign name value ih =>
    have hvalue := ih fun other hother => hassign other (Finset.mem_union_right _ hother)
    have hname := hassign name.lexeme (Finset.mem_union_left _ (Finset.mem_singleton_self _))
    exact .call fun rest _ => (hvalue rest).bind fun value =>
      leaves_store (fun machine _ => hname machine) (fun machine => hlog machine _ _) rest
  | unary op right ih =>
    exact .call fun rest _ => (ih hassign rest).bind fun right => leaves_apply hserial _
  | binary left op right ihl ihr =>
    have hleft := ihl fun other hother => hassign other (Finset.mem_union_left _ hother)
    have hright := ihr fun other hother => hassign other (Finset.mem_union_right _ hother)
    exact .call fun rest _ => (hleft rest).bind fun left => (hright rest).bind fun right =>
      leaves_apply hserial _
  | logical left op right ihl ihr =>
    have hleft := ihl fun other hother => hassign other (Finset.mem_union_left _ hother)
    have hright := ihr fun other hother => hassign other (Finset.mem_union_right _ hother)
    refine .call fun _ _ => .call fun rest _ => ?_
    refine (hleft rest).bind fun value => (leaves_ofExcept _).bind fun first => ?_
    split
    · exact (hright rest).bind fun value => (leaves_ofExcept _).bind fun second => leaves_pure _
    · exact leaves_pure _

/-! ### Statements -/

/-- The names that an expression assigns to, if there is one. -/
def Expr.assignedOf? : Option Expr → Finset String
  | none => ∅
  | some e => e.assigned

mutual

/-- The names that a statement assigns to. Bodies of functions are not executed. -/
def Stmt.assigned : Stmt → Finset String
  | .expression e | .print e => e.assigned
  | .varDecl _ initial => Expr.assignedOf? initial
  | .block body => Stmt.assignedIn body
  | .ifThen condition body => condition.assigned ∪ Stmt.assignedIn body
  | .ifElse condition body alternative =>
    condition.assigned ∪ (Stmt.assignedIn body ∪ Stmt.assignedIn alternative)
  | .whileLoop condition body step =>
    condition.assigned ∪ (Stmt.assignedIn body ∪ Expr.assignedOf? step)
  | .functionDecl _ | .returnValue .. | .classDecl .. | .breakLoop _ | .continueLoop _ | .empty
  | .error .. => ∅

/-- The names that statements of a list assign to. -/
def Stmt.assignedIn : List Stmt → Finset String
  | [] => ∅
  | stmt :: rest => stmt.assigned ∪ Stmt.assignedIn rest

end

mutual

/-- How many calls are open where the innermost scope of a statement is opened. -/
def Stmt.nesting : Stmt → Nat
  | .block body => Stmt.nestingIn body + 2
  | .ifThen _ body | .whileLoop _ body _ => Stmt.nestingIn body + 3
  | .ifElse _ body alternative => max (Stmt.nestingIn body) (Stmt.nestingIn alternative) + 3
  | .expression _ | .print _ | .varDecl .. | .functionDecl _ | .returnValue .. | .classDecl ..
  | .breakLoop _ | .continueLoop _ | .empty | .error .. => 0

/-- How many calls are open where the innermost scope of some statements is opened. -/
def Stmt.nestingIn : List Stmt → Nat
  | [] => 0
  | stmt :: rest => max stmt.nesting (Stmt.nestingIn rest)

end

/-- The entry opens or closes a scope. -/
def Entry.isScope : Entry → Bool
  | enterScope _ | leaveScope _ => true
  | _ => false

/-- Relations between machines that hold over the steps of a run: over an application of an operator,
a line of output, a log entry, a declaration and an assignment, and over an action in a scope of its
own if they hold over the action. The second relation is for runs that are cut off, so it is the one
that holds where a scope could not be logged. The relations may allow changes to the names in `own` in
the innermost scope and to those in `outer` in the scopes around it. -/
structure KeptBySteps (settings : Settings) (least : Nat)
    (R S : Finset String → Finset String → Machine → Machine → Prop) : Prop where
  mono {own outer own' outer' : Finset String} (hown : own ⊆ own') (houter : outer ⊆ outer')
    {first last : Machine} : R own outer first last → R own' outer' first last
  monoCut {own outer own' outer' : Finset String} (hown : own ⊆ own') (houter : outer ⊆ outer')
    {first last : Machine} : S own outer first last → S own' outer' first last
  serial (own outer : Finset String) (machine : Machine) :
    R own outer machine { machine with serial := machine.serial + 1 }
  print (own outer : Finset String) (machine : Machine) (text : String) :
    R own outer machine (machine.print text)
  log (own outer : Finset String) (machine : Machine) {entry : Entry} (h : entry.isScope = false) :
    R own outer machine (machine.log settings.verbosity entry)
  define {own outer : Finset String} (machine : Machine) {name : String} (hown : name ∈ own)
    (value : Value) :
    R own outer machine { machine with environment := machine.environment.define name value }
  assign {own outer : Finset String} (machine : Machine) {name : String} (hown : name ∈ own)
    (houter : name ∈ outer) {value : Value} {environment : Environment}
    (h : machine.environment.assign name value = .ok environment) :
    R own outer machine { machine with environment }
  leave {own outer : Finset String} {machine last : Machine}
    (h : R own outer (machine.openScope.log settings.verbosity
      (.enterScope (machine.environment.depth + 1))) last) :
    R outer outer machine (last.leaveScope settings.verbosity machine.environment.depth)
  leaveCut {own outer : Finset String} {machine last : Machine}
    (h : S own outer (machine.openScope.log settings.verbosity
      (.enterScope (machine.environment.depth + 1))) last) :
    S outer outer machine (last.leaveScope settings.verbosity machine.environment.depth)
  unentered (outer : Finset String) {room : Nat} (hroom : least ≤ room) {machine final : Machine}
    {interrupt : Interrupt} (h : enterScope settings room machine = .error interrupt final) :
    S outer outer machine (final.closeTo machine.environment.depth)

namespace KeptBySteps

variable {settings : Settings} {least : Nat} {mayLeave : Prop} {room : Nat}
  {R S : Finset String → Finset String → Machine → Machine → Prop}
  {own outer own' outer' : Finset String}

theorem settles_mono (h : KeptBySteps settings least R S) (hown : own ⊆ own') (houter : outer ⊆ outer')
    {action : Exec Unit} (haction : Settles mayLeave (R own outer) (S own outer) action) :
    Settles mayLeave (R own' outer') (S own' outer') action :=
  haction.mono (fun _ _ => h.mono hown houter) fun _ _ => h.monoCut hown houter

/-- A scope is closed behind an action, and one that is left open was not entered for want of room. -/
theorem settles_inScope (h : KeptBySteps settings least R S) (hleast : least ≤ room)
    (hroom : mayLeave ∨ settings.verbosity < 2 ∨
      max settings.stack.write settings.stack.flush ≤ room)
    {action : Exec Unit} (haction : Settles True (R own outer) (S own outer) action) :
    Settles mayLeave (R outer outer) (S outer outer) (inScope settings room action) := by
  intro machine
  change Settled mayLeave _ _ machine ((enterScope settings room >>= fun _ =>
    leaving settings machine.environment.depth action) machine)
  cases henter : enterScope settings room machine with
  | ok _ entered =>
    obtain rfl := enterScope_ok henter
    have hinner := haction (machine.openScope.log settings.verbosity
      (.enterScope (machine.environment.depth + 1)))
    rw [bind_of_ok henter]
    unfold leaving
    cases hrun : action (machine.openScope.log settings.verbosity
      (.enterScope (machine.environment.depth + 1))) with
    | ok _ last =>
      rw [hrun] at hinner
      exact h.leave hinner
    | error interrupt last =>
      rw [hrun] at hinner
      cases interrupt with
      | tooDeep =>
        obtain ⟨hle, -, hrel⟩ := hinner
        rw [environment_log] at hle hrel
        have hopen : machine.environment.depth < last.environment.depth := hle
        refine settled_of_cut (Machine.depth_leaveScope (Nat.le_of_lt hopen)) ?_
        rw [← Machine.leaveScope_closeTo hopen]
        exact h.leaveCut hrel
      | _ => exact h.leave hinner
  | error interrupt opened =>
    obtain ⟨rfl, -⟩ := enterScope_error henter
    have hpushed := environment_of_enterScope_error henter
    rw [bind_of_error henter]
    refine ⟨?_, .inl ?_, h.unentered outer hleast henter⟩
    · rw [hpushed, Environment.depth_push]
      exact Nat.le_succ _
    · refine hroom.resolve_right fun hfits => ?_
      rw [enterScope_of_room hfits] at henter
      cases henter

variable [∀ own outer, CutShort (R own outer) (S own outer)]

theorem leaves_log (h : KeptBySteps settings least R S) {entry : Entry}
    (hentry : entry.isScope = false) (room : Nat) :
    Leaves (R own outer) (Exec.log settings room entry) :=
  Exec.leaves_log (fun machine => h.log own outer machine hentry) room

theorem leaves_evaluate (h : KeptBySteps settings least R S) (e : Expr) (hown : e.assigned ⊆ own)
    (houter : e.assigned ⊆ outer) (room : Nat) : Leaves (R own outer) (e.evaluate settings room) :=
  e.leaves_evaluate (h.serial own outer) (fun machine _ _ => h.log own outer machine rfl)
    (fun _ hname machine _ _ hassign => h.assign machine (hown hname) (houter hname) hassign) room

theorem leaves_condition (h : KeptBySteps settings least R S) (e : Expr) (hown : e.assigned ⊆ own)
    (houter : e.assigned ⊆ outer) (room : Nat) : Leaves (R own outer) (condition settings room e) := by
  refine .call fun rest _ => (h.leaves_evaluate e hown houter rest).bind fun value => ?_
  refine (h.leaves_log rfl rest).bind fun _ => ?_
  cases value with
  | boolean b => exact leaves_pure b
  | _ => exact leaves_throw _

theorem leaves_optional (h : KeptBySteps settings least R S) (e : Option Expr)
    (hown : Expr.assignedOf? e ⊆ own) (houter : Expr.assignedOf? e ⊆ outer) (room : Nat) :
    Leaves (R own outer) (optional settings room e) := by
  cases e with
  | none => exact leaves_pure ()
  | some e => exact (h.leaves_evaluate e hown houter room).discard

theorem settles_form (h : KeptBySteps settings least R S) {name : String} {action : Nat → Exec Unit}
    (haction : ∀ rest, room = rest + 1 →
      Settles mayLeave (R own outer) (S own outer) (action rest)) :
    Settles mayLeave (R own outer) (S own outer) (form settings room name action) :=
  .call fun rest hrest => (h.leaves_log rfl rest).settles.bind fun _ => haction rest hrest

/-- A block changes what its statements change in the scopes around theirs. -/
theorem settles_block (h : KeptBySteps settings least R S) {nesting : Nat}
    (hleast : least ≤ room - (nesting + 2))
    (hroom : mayLeave ∨ settings.verbosity < 2 ∨
      max settings.stack.write settings.stack.flush + 2 ≤ room)
    {action : Nat → Exec Unit} {declared assigned : Finset String}
    (haction : ∀ rest, least ≤ rest - nesting →
      Settles True (R declared assigned) (S declared assigned) (action rest))
    (hown : assigned ⊆ own) (houter : assigned ⊆ outer) :
    Settles mayLeave (R own outer) (S own outer) (block settings room action) := by
  refine h.settles_form fun rest hrest => .call fun last hlast => ?_
  have hinner := haction last (by omega)
  exact h.settles_mono hown houter
    (h.settles_inScope (by omega) (hroom.imp_right (.imp_right (by omega))) hinner)

end KeptBySteps

section

variable {settings : Settings} {least : Nat}
  {R S : Finset String → Finset String → Machine → Machine → Prop}
  [∀ own outer, CutShort (R own outer) (S own outer)]

mutual

/-- What holds over every step holds over a statement, however it ends: it changes the names it
assigns to and the name it declares, the latter in the innermost scope only. -/
theorem Stmt.settles_execute (h : KeptBySteps settings least R S) (stmt : Stmt) {mayLeave : Prop}
    {room : Nat} (hleast : least ≤ room - stmt.nesting)
    (hroom : mayLeave ∨ settings.verbosity < 2 ∨
      max settings.stack.write settings.stack.flush + 3 ≤ room)
    {own outer : Finset String} (hdeclared : stmt.declared ⊆ own) (hown : stmt.assigned ⊆ own)
    (houter : stmt.assigned ⊆ outer) :
    Settles mayLeave (R own outer) (S own outer) (stmt.execute settings room) := by
  cases stmt with
  | expression e =>
    exact h.settles_form fun rest _ => (h.leaves_evaluate e hown houter rest).discard.settles
  | print e =>
    refine h.settles_form fun rest _ => Leaves.settles ?_
    exact (h.leaves_evaluate e hown houter rest).bind fun value =>
      leaves_modify fun machine => h.print own outer machine _
  | varDecl name initial =>
    have hname : name.lexeme ∈ own := Finset.singleton_subset_iff.1 hdeclared
    have hdefine (rest : Nat) (value : Value) : Leaves (R own outer) (do
        modify fun machine =>
          { machine with environment := machine.environment.define name.lexeme value }
        Exec.log settings rest (.define name.lexeme value)) :=
      (leaves_modify fun machine => h.define machine hname value).bind fun _ =>
        h.leaves_log rfl rest
    refine h.settles_form fun rest _ => Leaves.settles ?_
    cases initial with
    | none => exact (leaves_pure _).bind (hdefine rest)
    | some e => exact (h.leaves_evaluate e hown houter rest).bind (hdefine rest)
  | block body =>
    exact h.settles_block hleast (hroom.imp_right (.imp_right (by omega)))
      (fun rest hrest => Stmt.settles_executeAll h body hrest (.inl trivial)) hown houter
  | ifThen condition body =>
    obtain ⟨hcondition, hbody⟩ := Finset.union_subset_iff.1 hown
    obtain ⟨hcondition', hbody'⟩ := Finset.union_subset_iff.1 houter
    refine h.settles_form fun rest hrest => ?_
    refine (h.leaves_condition condition hcondition hcondition' rest).settles.bind fun taken => ?_
    refine (h.leaves_log rfl rest).settles.bind fun _ => ?_
    cases taken with
    | false => exact settles_pure ()
    | true =>
      exact h.settles_block (by simp only [Stmt.nesting] at hleast; omega)
        (hroom.imp_right (.imp_right (by omega)))
        (fun rest hrest => Stmt.settles_executeAll h body hrest (.inl trivial)) hbody hbody'
  | ifElse condition body alternative =>
    simp only [Stmt.assigned, Finset.union_subset_iff] at hown houter
    simp only [Stmt.nesting] at hleast
    refine h.settles_form fun rest hrest => ?_
    refine (h.leaves_condition condition hown.1 houter.1 rest).settles.bind fun taken => ?_
    refine (h.leaves_log rfl rest).settles.bind fun _ => ?_
    cases taken with
    | false =>
      exact h.settles_block (by omega) (hroom.imp_right (.imp_right (by omega)))
        (fun rest hrest => Stmt.settles_executeAll h alternative hrest (.inl trivial))
        hown.2.2 houter.2.2
    | true =>
      exact h.settles_block (by omega) (hroom.imp_right (.imp_right (by omega)))
        (fun rest hrest => Stmt.settles_executeAll h body hrest (.inl trivial))
        hown.2.1 houter.2.1
  | whileLoop condition body step =>
    simp only [Stmt.assigned, Finset.union_subset_iff] at hown houter
    simp only [Stmt.nesting] at hleast
    refine h.settles_form fun rest hrest => ?_
    exact (h.leaves_condition condition hown.1 houter.1 rest).settles.loop
      (h.settles_block (by omega) (hroom.imp_right (.imp_right (by omega)))
        (fun rest hrest => Stmt.settles_executeAll h body hrest (.inl trivial))
        hown.2.1 houter.2.1)
      (h.leaves_optional step hown.2.2 houter.2.2 rest).settles settings.rounds
  | functionDecl | returnValue | classDecl | breakLoop | continueLoop =>
    exact h.settles_form fun _ _ => settles_throw _
  | empty | error => exact h.settles_form fun _ _ => settles_pure ()

/-- What holds over every step holds over statements in order: they change the names they assign to
and the names they declare, the latter in the innermost scope only. -/
theorem Stmt.settles_executeAll (h : KeptBySteps settings least R S) (body : List Stmt)
    {mayLeave : Prop} {room : Nat} (hleast : least ≤ room - Stmt.nestingIn body)
    (hroom : mayLeave ∨ settings.verbosity < 2 ∨
      max settings.stack.write settings.stack.flush + 3 ≤ room) :
    Settles mayLeave (R (Stmt.declaredIn body ∪ Stmt.assignedIn body) (Stmt.assignedIn body))
      (S (Stmt.declaredIn body ∪ Stmt.assignedIn body) (Stmt.assignedIn body))
      (Stmt.executeAll settings room body) := by
  cases body with
  | nil => exact settles_pure ()
  | cons stmt rest =>
    simp only [Stmt.nestingIn] at hleast
    refine Settles.bind (Stmt.settles_execute h stmt (by omega) hroom ?_ ?_ ?_) fun _ =>
      h.settles_mono ?_ ?_ (Stmt.settles_executeAll h rest (by omega) hroom)
    · exact Finset.subset_union_left.trans Finset.subset_union_left
    · exact Finset.subset_union_left.trans Finset.subset_union_right
    · exact Finset.subset_union_left
    · exact Finset.union_subset_union Finset.subset_union_right Finset.subset_union_right
    · exact Finset.subset_union_right

end

end

end Lox

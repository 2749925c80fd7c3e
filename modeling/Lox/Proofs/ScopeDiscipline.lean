import Mathlib.Data.List.Forall2
import Lox.Output
import Lox.Proofs.SettledRuns

/-!
# Scopes when a statement has ended

A statement may return, break off or fault. In every case the scopes that were there
when it began are there when it has ended: none is opened or closed for good, only a
declaration adds a name, and only names that are assigned to or declared have other
values. An expression adds no name at all and prints nothing.

The same holds of a statement that is cut off for want of room, if it was begun with the
room to log the scope it opens, as every statement of a program is. A statement begun with
less may leave its scope open; the statements around it close that scope.
-/
namespace Lox

open Exec

/-! ### Printing -/

/-- What a machine has printed, when its log goes to a file or not. -/
def Machine.printedText (toFile : Bool) (machine : Machine) : String :=
  (Output.ofEvents toFile machine.events.reverse).stdout

/-- Log entries are not printed if the log goes to a file, and there are none at verbosity zero. -/
theorem Machine.printedText_log {verbosity : Nat} {toFile : Bool}
    (h : verbosity = 0 ∨ toFile = true) (entry : Entry) (machine : Machine) :
    (machine.log verbosity entry).printedText toFile = machine.printedText toFile := by
  unfold Machine.log
  split
  case isFalse => rfl
  case isTrue hlevel =>
    have hpos := entry.level_pos
    have hfile : toFile = true := h.resolve_left (by omega)
    subst hfile
    simp [printedText, Output.ofEvents, Output.ofEvent, Output.logLine, Output.empty,
      String.join_append]

/-- The second machine has printed what the first one has printed. -/
def Machine.PrintsAlike (toFile : Bool) (first last : Machine) : Prop :=
  last.printedText toFile = first.printedText toFile

instance (toFile : Bool) : IsPreorder Machine (Machine.PrintsAlike toFile) where
  refl _ := rfl
  trans _ _ _ h h' := h'.trans h

/-- Evaluation prints nothing. -/
theorem Expr.printsAlike_evaluate {settings : Settings} {toFile : Bool}
    (h : settings.verbosity = 0 ∨ toFile = true) (e : Expr) (room : Nat) :
    Leaves (Machine.PrintsAlike toFile) (e.evaluate settings room) :=
  Expr.leaves_evaluate (R := Machine.PrintsAlike toFile) (fun _ => rfl)
    (fun machine _ _ => Machine.printedText_log h _ machine) e (fun _ _ _ _ _ _ => rfl) room

/-! ### Bindings -/

/-- The second scope binds what the first one binds, some names apart. -/
def Scope.SameOff (names : Finset String) (before after : Scope) : Prop :=
  ∀ name ∉ names, after.get? name = before.get? name

/-- Two chains of as many scopes bind the same, the names in `own` apart in the innermost scope and
the names in `outer` apart in those around it. -/
structure Environment.SameOff (own outer : Finset String) (before after : Environment) : Prop where
  own : before.own.SameOff own after.own
  outer : List.Forall₂ (Scope.SameOff outer) before.outer after.outer

namespace Scope

variable {names more : Finset String}

theorem sameOff_refl (scope : Scope) : scope.SameOff names scope := fun _ _ => rfl

theorem SameOff.trans {first second third : Scope} (h : first.SameOff names second)
    (h' : second.SameOff names third) : first.SameOff names third :=
  fun name hname => (h' name hname).trans (h name hname)

theorem SameOff.mono {before after : Scope} (h : before.SameOff names after)
    (hsub : names ⊆ more) : before.SameOff more after :=
  fun name hname => h name fun hmem => hname (hsub hmem)

theorem sameOff_insert {name : String} (hname : name ∈ names) (scope : Scope) (value : Value) :
    scope.SameOff names (scope.insert name value) := by
  intro other hother
  have hne : other ≠ name := fun heq => hother (heq ▸ hname)
  rw [get?_insert, if_neg hne]

theorem forall₂_sameOff_refl (scopes : List Scope) :
    List.Forall₂ (SameOff names) scopes scopes := by
  induction scopes with
  | nil => exact .nil
  | cons scope rest ih => exact .cons scope.sameOff_refl ih

theorem forall₂_sameOff_trans {first second third : List Scope}
    (h : List.Forall₂ (SameOff names) first second)
    (h' : List.Forall₂ (SameOff names) second third) :
    List.Forall₂ (SameOff names) first third := by
  induction h generalizing third with
  | nil => exact h'
  | cons hscope _ ih =>
    obtain _ | ⟨hscope', hrest'⟩ := h'
    exact .cons (hscope.trans hscope') (ih hrest')

end Scope

namespace Environment

variable {own outer own' outer' : Finset String} {before after : Environment}

theorem sameOff_refl (env : Environment) : env.SameOff own outer env :=
  ⟨env.own.sameOff_refl, Scope.forall₂_sameOff_refl env.outer⟩

theorem SameOff.mono (h : before.SameOff own outer after) (hown : own ⊆ own')
    (houter : outer ⊆ outer') : before.SameOff own' outer' after :=
  ⟨h.own.mono hown, h.outer.imp fun _ _ hscope => hscope.mono houter⟩

theorem sameOff_define {name : String} (hname : name ∈ own) (env : Environment) (value : Value) :
    env.SameOff own outer (env.define name value) :=
  ⟨Scope.sameOff_insert hname env.own value, Scope.forall₂_sameOff_refl env.outer⟩

theorem forall₂_assignIn {name : String} {value : Value} {before after : List Scope}
    (h : assignIn name value before = some after) :
    List.Forall₂ (Scope.SameOff {name}) before after := by
  induction before generalizing after with
  | nil => cases h
  | cons scope rest ih =>
    by_cases hb : scope.binds name
    · rw [assignIn, if_pos hb] at h
      obtain rfl := Option.some.inj h
      exact .cons (Scope.sameOff_insert (Finset.mem_singleton_self name) scope value)
        (Scope.forall₂_sameOff_refl rest)
    · rw [assignIn, if_neg hb] at h
      obtain ⟨tail, htail, rfl⟩ := Option.map_eq_some_iff.1 h
      exact .cons scope.sameOff_refl (ih htail)

/-- An assignment sets its name in one of the scopes. -/
theorem sameOff_assign {name : String} {value : Value} (h : before.assign name value = .ok after) :
    before.SameOff {name} {name} after := by
  unfold assign at h
  split at h
  · next own outer hin =>
    obtain rfl := Except.ok.inj h
    obtain _ | ⟨hown, houter⟩ := forall₂_assignIn hin
    exact ⟨hown, houter⟩
  · cases h

/-- What has been bound in a scope of its own is gone when the scope is closed. -/
theorem SameOff.pop_of_push (h : before.push.SameOff own outer after) :
    before.SameOff outer outer after.pop := by
  obtain ⟨scope, scopes⟩ := after
  obtain _ | ⟨hown, houter⟩ := h.outer
  exact ⟨hown, houter⟩

end Environment

/-- The bindings of the first machine are those of the second, some names apart. -/
abbrev Machine.SameOff (own outer : Finset String) (first last : Machine) : Prop :=
  first.environment.SameOff own outer last.environment

instance (own outer : Finset String) : IsPreorder Machine (Machine.SameOff own outer) where
  refl machine := machine.environment.sameOff_refl
  trans _ _ _ h h' := ⟨h.own.trans h'.own, Scope.forall₂_sameOff_trans h.outer h'.outer⟩

instance (own outer : Finset String) : KeepsDepth (Machine.SameOff own outer) where
  depth_eq h := h.outer.length_eq.symm

namespace Machine

theorem sameOff_of_eq {own outer : Finset String} {first last : Machine}
    (h : last.environment = first.environment) : first.SameOff own outer last := by
  rw [SameOff, h]
  exact first.environment.sameOff_refl

/-- What has been bound in a scope that is closed does not matter. -/
theorem SameOff.leaveScope {own outer : Finset String} {verbosity : Nat} {entry : Entry}
    {machine last : Machine} (h : (machine.openScope.log verbosity entry).SameOff own outer last) :
    machine.SameOff outer outer (last.leaveScope verbosity machine.environment.depth) := by
  have hdepth := depth_of_openScope (KeepsDepth.depth_eq h)
  unfold SameOff at h ⊢
  rw [environment_log] at h
  rw [Machine.leaveScope, environment_log]
  change machine.environment.SameOff outer outer
    (last.environment.closeTo machine.environment.depth)
  rw [Environment.closeTo_eq_pop (by omega), Environment.closeTo_of_le (by omega)]
  exact h.pop_of_push

/-- Bindings change at names that are declared and at names that are assigned to. -/
theorem sameOff_steps (settings : Settings) : KeptBySteps settings 0 SameOff SameOff where
  mono hown houter _ _ h := h.mono hown houter
  monoCut hown houter _ _ h := h.mono hown houter
  serial _ _ _ := sameOff_of_eq rfl
  print _ _ _ _ := sameOff_of_eq rfl
  log _ _ machine _ _ := sameOff_of_eq (environment_log _ _ machine)
  define machine _ hown value := Environment.sameOff_define hown machine.environment value
  assign _ _ hown houter _ _ h := (Environment.sameOff_assign h).mono
    (Finset.singleton_subset_iff.2 hown) (Finset.singleton_subset_iff.2 houter)
  leave h := h.leaveScope
  leaveCut h := h.leaveScope
  unentered outer _ _ machine final _ h := by
    apply sameOff_of_eq
    rw [closeTo, environment_of_enterScope_error h]
    exact machine.environment.closeTo_push

end Machine

/-! ### All together -/

/-- What has become of a chain of scopes: it is the same chain, in whose innermost scope some of the
names in `declared` may be new, and in which some names have other values. -/
structure Environment.Kept (declared assigned : Finset String) (before after : Environment) :
    Prop where
  depth : after.depth = before.depth
  outerNames : after.outer.map Scope.nameSet = before.outer.map Scope.nameSet
  ownNames : ∃ added ⊆ declared, after.own.nameSet = before.own.nameSet ∪ added
  bindings : before.SameOff (declared ∪ assigned) assigned after

theorem Exec.Declares.runOn {α : Type} {names : Finset String} {a : Exec α} (h : Declares names a)
    (machine : Machine) : ∃ added ⊆ names, ∃ opened,
      (runOn machine a).2.environment.nameSets =
        opened ++ declare added machine.environment.nameSets := by
  unfold Exec.runOn
  cases hrun : a machine with
  | ok x final => exact ⟨names, Finset.Subset.refl names, [], h.ok hrun⟩
  | error interrupt final =>
    obtain ⟨added, hadded, opened, hsets, -⟩ := h.error hrun
    exact ⟨added, hadded, opened, hsets⟩

section Kept

variable {α : Type} {declared assigned : Finset String} {a : Exec α} {mayLeave : Prop}

/-- The names come from the declarations and the values from the assignments of a run. -/
theorem Environment.kept_of_settles (hnames : Declares declared a)
    (hvalues : Settles mayLeave (Machine.SameOff (declared ∪ assigned) assigned)
      (Machine.SameOff (declared ∪ assigned) assigned) a)
    (machine : Machine) : machine.environment.Kept declared assigned
      ((runOn machine a).2.environment.closeTo machine.environment.depth) := by
  obtain ⟨hle, hbindings⟩ := hvalues.closed machine
  obtain ⟨added, hadded, opened, hsets⟩ := hnames.runOn machine
  have hlength : (declare added machine.environment.nameSets).length =
      machine.environment.depth + 1 := by
    simp [declare, nameSets, scopes, depth]
  have hclosed := nameSets_closeTo hsets hlength
  have hcons : _ :: _ = (machine.environment.own.nameSet ∪ added) :: _ := hclosed
  obtain ⟨hown, houter⟩ := List.cons.inj hcons
  exact ⟨depth_closeTo hle, houter, ⟨added, hadded, hown⟩, hbindings⟩

/-- No scope has to be closed behind a run that leaves none open. -/
theorem Environment.kept_of_leaves (hnames : Declares declared a)
    (hvalues : Leaves (Machine.SameOff (declared ∪ assigned) assigned) a) (machine : Machine) :
    machine.environment.Kept declared assigned (runOn machine a).2.environment := by
  have hsettles : Settles False (Machine.SameOff (declared ∪ assigned) assigned)
      (Machine.SameOff (declared ∪ assigned) assigned) a := hvalues.settles
  have hkept := kept_of_settles hnames hsettles machine
  have hdepth := KeepsDepth.depth_eq (hvalues machine)
  rwa [closeTo_of_le (Nat.le_of_eq hdepth)] at hkept

/-- Only a run out of room leaves scopes open. -/
theorem Environment.kept_of_not_tooDeep (hnames : Declares declared a)
    (hvalues : Settles mayLeave (Machine.SameOff (declared ∪ assigned) assigned)
      (Machine.SameOff (declared ∪ assigned) assigned) a)
    {machine : Machine} (h : (runOn machine a).1 ≠ .error .tooDeep) :
    machine.environment.Kept declared assigned (runOn machine a).2.environment := by
  have hkept := kept_of_settles hnames hvalues machine
  have hdepth := KeepsDepth.depth_eq (hvalues.of_not_tooDeep h)
  rwa [closeTo_of_le (Nat.le_of_eq hdepth)] at hkept

end Kept

/-- The same names are in scope. -/
def Machine.SameNames (first last : Machine) : Prop :=
  last.environment.nameSets = first.environment.nameSets

instance : IsPreorder Machine Machine.SameNames where
  refl _ := rfl
  trans _ _ _ h h' := h'.trans h

/-- Evaluation leaves the names in scope as they are. -/
theorem Expr.sameNames_evaluate (settings : Settings) (e : Expr) (room : Nat) :
    Leaves Machine.SameNames (e.evaluate settings room) :=
  Expr.leaves_evaluate (R := Machine.SameNames) (fun _ => rfl)
    (fun machine _ _ => congrArg Environment.nameSets (environment_log _ _ machine)) e
    (fun _ _ _ _ _ h => Environment.nameSets_assign h) room

theorem Machine.environment_interpret (settings : Settings) (program : List Stmt)
    (machine : Machine) : (machine.interpret settings program).2.environment =
      (runOn machine
        (Stmt.executeAll settings settings.stack.limit program)).2.environment := by
  unfold interpret runOn
  cases Stmt.executeAll settings settings.stack.limit program machine with
  | ok x final => rfl
  | error interrupt final =>
    cases interrupt with
    | fault fault => exact environment_log _ _ final
    | _ => rfl

/-- With room for four calls a block can be begun, but not flush what it logs about its scope. -/
example : runOn (.start .empty 0) ((Stmt.block []).execute ⟨2, 8, .standard⟩ 4) =
    (.error .tooDeep,
      ⟨Environment.empty.push, 0, [.logged (.enterScope 1), .logged (.execute "Block")]⟩) := by
  decide +kernel

/-- A name that a block sets in a scope around it. -/
def reached : Token := ⟨.identifier, "x", some "x", 1⟩

/-- The block `{ var y = nil; x = true; break; }`, which no loop encloses. -/
def straying : Stmt :=
  .block [.varDecl ⟨.identifier, "y", some "y", 1⟩ none,
    .expression (.assign reached (.literal (.boolean true))),
    .breakLoop ⟨.kwBreak, "break", some "break", 1⟩]

/-- The outer of two scopes binds the name, and the inner one binds the name that the block declares
for itself. -/
def nestedStart : Machine :=
  .start ⟨⟨[("y", .boolean false)]⟩, [⟨[("x", .nil)]⟩]⟩ 0

end Lox

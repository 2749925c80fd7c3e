import Lox.Proofs.ScopeDiscipline
import Lox.Proofs.Verbosity

/-!
# Scopes in the log

From verbosity two on the log tells which scopes are open. It is read with a stack of
depths: an entry that opens a scope puts its depth on the stack, and an entry that closes
one takes that depth off again. At every moment of a run the stack holds the depths of all
scopes of the chain but the global one. So it is empty when a program that began in the
global scope has ended, in whatever way.

One thing can spoil this. An entry that opens a scope is flushed after it has been written,
and if there is no room for that, the run is cut off and no entry is written when the scope is
left. This does not happen where flushing takes no more calls than writing, and elsewhere not
as long as a program does not nest its blocks so deep that they use up the stack. No program
that is read from a source comes near that. Where it does happen, that one entry is all that
is in the way.
-/
namespace Lox

namespace Entry

theorem level_of_isScope {entry : Entry} (h : entry.isScope = true) : entry.level = 2 := by
  cases entry with
  | enterScope depth | leaveScope depth => rfl
  | _ => cases h

/-- The depths of the open scopes behind an entry, the innermost first, or `none` if the entry does
not fit. A scope that is opened lies one deeper than the number of scopes open around it, and only
the innermost one can be closed. -/
def track (opened : List Nat) : Entry → Option (List Nat)
  | enterScope depth => if depth = opened.length + 1 then some (depth :: opened) else none
  | leaveScope depth => if opened.head? = some depth then some opened.tail else none
  | _ => none

/-- Scopes are opened and closed like brackets, and none is open at the end. -/
def Bracketed (entries : List Entry) : Prop := entries.foldlM track [] = some []

instance (entries : List Entry) : Decidable (Bracketed entries) :=
  inferInstanceAs (Decidable (_ = _))

example : Bracketed [enterScope 1, enterScope 2, leaveScope 2, leaveScope 1, enterScope 1,
    leaveScope 1] ∧
  ¬ Bracketed [enterScope 1, enterScope 2, leaveScope 1, leaveScope 2] ∧
  ¬ Bracketed [enterScope 2, leaveScope 2] ∧ ¬ Bracketed [enterScope 1] := by decide

/-- The first entries are the second, or all of these but one that opens a scope, where that is
allowed. -/
inductive AllButOne (mayMiss : Prop) : List Entry → List Entry → Prop
  | all (entries : List Entry) : AllButOne mayMiss entries entries
  | one (hmiss : mayMiss) (before : List Entry) (depth : Nat) (after : List Entry) :
      AllButOne mayMiss (before ++ after) (before ++ enterScope depth :: after)

theorem AllButOne.eq {kept entries : List Entry} (h : AllButOne False kept entries) :
    kept = entries := by
  cases h with
  | all => rfl
  | one hmiss => exact hmiss.elim

theorem AllButOne.snoc {mayMiss : Prop} {kept entries : List Entry}
    (h : AllButOne mayMiss kept entries) (entry : Entry) :
    AllButOne mayMiss (kept ++ [entry]) (entries ++ [entry]) := by
  cases h with
  | all => exact .all _
  | one hmiss before depth after =>
    rw [List.append_assoc, List.append_assoc, List.cons_append]
    exact .one hmiss before depth (after ++ [entry])

end Entry

/-! ### The scopes that a log shows -/

open Exec

/-- The depths of nested scopes, from the innermost to the outermost that is not global. -/
def depthsFrom : Nat → List Nat
  | 0 => []
  | depth + 1 => (depth + 1) :: depthsFrom depth

@[simp] theorem length_depthsFrom (depth : Nat) : (depthsFrom depth).length = depth := by
  induction depth with
  | zero => rfl
  | succ depth ih => rw [depthsFrom, List.length_cons, ih]

namespace Machine

/-- The entries about scopes that have been logged, in order. -/
def scopeEntries (machine : Machine) : List Entry :=
  (machine.events.reverse.filterMap Event.toEntry).filter Entry.isScope

/-- The scopes that are open by some entries are those of the environment. -/
def Shows (machine : Machine) (entries : List Entry) : Prop :=
  entries.foldlM Entry.track [] = some (depthsFrom machine.environment.depth)

/-- The scopes that are open by the log are those of the environment. One entry may be left out where
that is allowed. -/
def ShowsMost (mayMiss : Prop) (machine : Machine) : Prop :=
  ∃ kept, Entry.AllButOne mayMiss kept machine.scopeEntries ∧ machine.Shows kept

variable {mayMiss : Prop} {verbosity : Nat} {machine : Machine} {entry : Entry}

theorem scopeEntries_print (machine : Machine) (text : String) :
    (machine.print text).scopeEntries = machine.scopeEntries := by
  simp [scopeEntries, print]

theorem scopeEntries_log_other (h : entry.isScope = false) :
    (machine.log verbosity entry).scopeEntries = machine.scopeEntries := by
  unfold log
  split
  · simp [scopeEntries, h]
  · rfl

theorem scopeEntries_log (h : entry.isScope = true) (hverbose : 2 ≤ verbosity) :
    (machine.log verbosity entry).scopeEntries = machine.scopeEntries ++ [entry] := by
  have hlevel : entry.level ≤ verbosity := by rwa [Entry.level_of_isScope h]
  simp [log, hlevel, scopeEntries, h]

/-- An entry that fits shows what it is about. -/
theorem Shows.snoc {logged : Machine} {entries : List Entry} (h : machine.Shows entries)
    (hfits : Entry.track (depthsFrom machine.environment.depth) entry =
      some (depthsFrom logged.environment.depth)) :
    logged.Shows (entries ++ [entry]) := by
  unfold Shows at h ⊢
  rw [List.foldlM_append, h]
  simpa using hfits

/-- A scope that is opened is shown. -/
theorem Shows.enterScope (h : machine.Shows machine.scopeEntries) (hverbose : 2 ≤ verbosity) :
    let opened := machine.openScope.log verbosity (.enterScope (machine.environment.depth + 1))
    opened.Shows opened.scopeEntries := by
  intro opened
  have hentries : opened.scopeEntries = _ := scopeEntries_log rfl hverbose
  rw [hentries]
  refine h.snoc ?_
  rw [environment_log]
  change _ = some (depthsFrom (machine.environment.depth + 1))
  simp [Entry.track, depthsFrom]

/-- A scope that is closed is not shown any more. -/
theorem Shows.leaveScope {depth : Nat} {entries : List Entry} (h : machine.Shows entries)
    (verbosity : Nat) (hdepth : machine.environment.depth = depth + 1) :
    (machine.leaveScope verbosity depth).Shows (entries ++ [.leaveScope (depth + 1)]) := by
  refine h.snoc ?_
  rw [depth_leaveScope (by omega), hdepth]
  simp [Entry.track, depthsFrom]

theorem ShowsMost.leaveScope {depth : Nat} (h : machine.ShowsMost mayMiss)
    (hverbose : 2 ≤ verbosity) (hdepth : machine.environment.depth = depth + 1) :
    (machine.leaveScope verbosity depth).ShowsMost mayMiss := by
  obtain ⟨kept, hmost, hshows⟩ := h
  refine ⟨_, ?_, hshows.leaveScope verbosity hdepth⟩
  rw [Machine.leaveScope, scopeEntries_log rfl hverbose]
  exact hmost.snoc _

end Machine

/-! ### Runs -/

/-- The second machine is as deep as the first, and its log shows the open scopes if that of the
first does. -/
def Machine.KeepsShowing (first last : Machine) : Prop :=
  last.environment.depth = first.environment.depth ∧
    (first.Shows first.scopeEntries → last.Shows last.scopeEntries)

/-- The second machine is as deep as the first, and its log shows the open scopes if that of the
first does, when one entry is left out where that is allowed. -/
def Machine.KeepsMost (mayMiss : Prop) (first last : Machine) : Prop :=
  last.environment.depth = first.environment.depth ∧
    (first.Shows first.scopeEntries → last.ShowsMost mayMiss)

instance : KeepsDepth Machine.KeepsShowing where
  refl _ := ⟨rfl, id⟩
  trans _ _ _ h h' := ⟨h'.1.trans h.1, h'.2 ∘ h.2⟩
  depth_eq h := h.1

instance (mayMiss : Prop) : CutShort Machine.KeepsShowing (Machine.KeepsMost mayMiss) where
  of_kept h := ⟨h.1, fun hfirst => ⟨_, .all _, h.2 hfirst⟩⟩
  after h h' := ⟨h'.1.trans h.1, h'.2 ∘ h.2⟩

namespace Machine

variable {mayMiss : Prop} {settings : Settings}

/-- A machine is shown as it was if neither its depth nor the entries about scopes have changed. -/
theorem keepsShowing_of_eq {first last : Machine}
    (hdepth : last.environment.depth = first.environment.depth)
    (hentries : last.scopeEntries = first.scopeEntries) : first.KeepsShowing last := by
  unfold KeepsShowing Shows
  rw [hdepth, hentries]
  exact ⟨rfl, id⟩

theorem keepsShowing_log {entry : Entry} (h : entry.isScope = false) (verbosity : Nat)
    (machine : Machine) : machine.KeepsShowing (machine.log verbosity entry) :=
  keepsShowing_of_eq (by rw [environment_log]) (scopeEntries_log_other h)

/-- Nothing has been written about a scope that could not be logged, if flushing takes no more calls
than writing. -/
theorem enterScope_unlogged {room : Nat} {machine final : Machine} {interrupt : Interrupt}
    (hflush : settings.stack.flush ≤ settings.stack.write)
    (h : enterScope settings room machine = .error interrupt final) : final = machine.openScope := by
  rw [enterScope_apply, log_apply] at h
  change (if 2 ≤ settings.verbosity ∧ room < settings.stack.write then _
    else if 2 ≤ settings.verbosity ∧ room < settings.stack.flush then _ else _) = _ at h
  split at h
  · cases h
    rfl
  · rw [if_neg (by omega)] at h
    cases h

/-- The entry about a scope that could not be flushed is left out. -/
theorem keepsMost_unflushed (hmiss : mayMiss) {verbosity : Nat} (hverbose : 2 ≤ verbosity)
    (machine : Machine) (depth : Nat) : machine.KeepsMost mayMiss
      ((machine.openScope.log verbosity (.enterScope depth)).closeTo machine.environment.depth) := by
  have hclosed : ((machine.openScope.log verbosity (.enterScope depth)).closeTo
      machine.environment.depth).environment = machine.environment := by
    rw [closeTo, environment_log]
    exact machine.environment.closeTo_push
  have hentries : ((machine.openScope.log verbosity (.enterScope depth)).closeTo
      machine.environment.depth).scopeEntries = machine.scopeEntries ++ [.enterScope depth] :=
    scopeEntries_log rfl hverbose
  refine ⟨congrArg Environment.depth hclosed, fun hfirst => ⟨machine.scopeEntries, ?_, ?_⟩⟩
  · rw [hentries]
    simpa using Entry.AllButOne.one hmiss machine.scopeEntries depth []
  · unfold Shows
    rw [hclosed]
    exact hfirst

/-- A scope that has been opened and closed is not shown. -/
theorem keepsShowing_openScope (machine : Machine) :
    machine.KeepsShowing (machine.openScope.closeTo machine.environment.depth) := by
  refine keepsShowing_of_eq ?_ rfl
  exact congrArg Environment.depth machine.environment.closeTo_push

section Leave

variable {verbosity : Nat} {machine last : Machine}

/-- The scope of an action is shown while it runs and closed behind it. -/
theorem KeepsShowing.leaveScope (hverbose : 2 ≤ verbosity)
    (h : (machine.openScope.log verbosity
      (.enterScope (machine.environment.depth + 1))).KeepsShowing last) :
    machine.KeepsShowing (last.leaveScope verbosity machine.environment.depth) := by
  have hdepth := depth_of_openScope h.1
  have hentries : (last.leaveScope verbosity machine.environment.depth).scopeEntries = _ :=
    scopeEntries_log rfl hverbose
  refine ⟨depth_leaveScope (by omega), fun hfirst => ?_⟩
  rw [hentries]
  exact (h.2 (hfirst.enterScope hverbose)).leaveScope verbosity hdepth

theorem KeepsMost.leaveScope (hverbose : 2 ≤ verbosity)
    (h : (machine.openScope.log verbosity
      (.enterScope (machine.environment.depth + 1))).KeepsMost mayMiss last) :
    machine.KeepsMost mayMiss (last.leaveScope verbosity machine.environment.depth) := by
  have hdepth := depth_of_openScope h.1
  exact ⟨depth_leaveScope (by omega), fun hfirst =>
    (h.2 (hfirst.enterScope hverbose)).leaveScope hverbose hdepth⟩

end Leave

theorem keepsShowing_steps (hverbose : 2 ≤ settings.verbosity) {least : Nat}
    (hleast : mayMiss ∨ settings.stack.flush ≤ settings.stack.write ∨
      max settings.stack.write settings.stack.flush ≤ least) :
    KeptBySteps settings least (fun _ _ => KeepsShowing) fun _ _ => KeepsMost mayMiss where
  mono _ _ _ _ h := h
  monoCut _ _ _ _ h := h
  serial _ _ _ := ⟨rfl, id⟩
  print _ _ machine text := keepsShowing_of_eq rfl (scopeEntries_print machine text)
  log _ _ machine _ h := keepsShowing_log h _ machine
  define _ _ _ _ := ⟨rfl, id⟩
  assign machine _ _ _ _ _ h :=
    keepsShowing_of_eq (Environment.sameOff_assign h).outer.length_eq.symm rfl
  leave h := h.leaveScope hverbose
  leaveCut h := h.leaveScope hverbose
  unentered _ _ hroom machine final _ h := by
    rcases hleast with hmiss | hflush | hmax
    · obtain ⟨-, rfl | rfl⟩ := enterScope_error h
      · exact CutShort.of_kept (keepsShowing_openScope machine)
      · exact keepsMost_unflushed hmiss hverbose machine _
    · rw [enterScope_unlogged hflush h]
      exact CutShort.of_kept (keepsShowing_openScope machine)
    · rw [enterScope_of_room (.inr (hmax.trans hroom))] at h
      cases h

end Machine

/-- Each entry that opens a scope of a program can be flushed when it has been written: flushing takes
no more calls than writing, or there is room for both where the innermost scope is opened. -/
def Stack.Flushes (stack : Stack) (program : List Stmt) : Prop :=
  stack.flush ≤ stack.write ∨ Stmt.nestingIn program + max stack.write stack.flush ≤ stack.limit

namespace Machine

variable {mayMiss : Prop} {settings : Settings}

theorem settles_executeAll_showing (hverbose : 2 ≤ settings.verbosity) {program : List Stmt}
    (hmiss : mayMiss ∨ settings.stack.Flushes program) :
    Settles False KeepsShowing (KeepsMost mayMiss)
      (Stmt.executeAll settings settings.stack.limit program) := by
  rcases hmiss with hmiss | hflush | hroom
  · exact Stmt.settles_executeAll (keepsShowing_steps hverbose (.inl hmiss)) program
      (Nat.zero_le _) (.inr (.inr settings.stack.enough))
  · exact Stmt.settles_executeAll (keepsShowing_steps hverbose (.inr (.inl hflush))) program
      (Nat.zero_le _) (.inr (.inr settings.stack.enough))
  · exact Stmt.settles_executeAll (keepsShowing_steps hverbose (.inr (.inr (le_refl _)))) program
      (by omega) (.inr (.inr settings.stack.enough))

/-- An entry is left out only if a run is cut off. -/
theorem keepsShowing_interpret (hverbose : 2 ≤ settings.verbosity) {program : List Stmt}
    (hmiss : mayMiss ∨ settings.stack.Flushes program) (machine : Machine) :
    let ended := machine.interpret settings program
    (ended.1 ≠ .tooDeep → machine.KeepsShowing ended.2) ∧ machine.KeepsMost mayMiss ended.2 := by
  have hboth {ending : Ending} {last : Machine} (h : machine.KeepsShowing last) :
      (ending ≠ .tooDeep → machine.KeepsShowing last) ∧ machine.KeepsMost mayMiss last :=
    ⟨fun _ => h, CutShort.of_kept h⟩
  have hrun := settles_executeAll_showing hverbose hmiss machine
  unfold interpret
  cases hend : Stmt.executeAll settings settings.stack.limit program machine with
  | ok _ last =>
    rw [hend] at hrun
    exact hboth hrun
  | error interrupt last =>
    rw [hend] at hrun
    cases interrupt with
    | tooDeep =>
      obtain ⟨-, hdepth, hcut⟩ := hrun
      rw [closeTo_of_le (Nat.le_of_eq (hdepth.resolve_left id))] at hcut
      exact ⟨fun hended => absurd rfl hended, hcut⟩
    | fault fault => exact hboth (IsTrans.trans _ _ _ hrun (keepsShowing_log rfl _ last))
    | _ => exact hboth hrun

section Global

variable {environment : Environment} (hglobal : environment.depth = 0) (serial : Nat)

include hglobal

/-- What a run shows that goes back to the global scope are brackets. -/
theorem KeepsMost.bracketed {last : Machine}
    (h : (start environment serial).KeepsMost mayMiss last) :
    ∃ kept, Entry.AllButOne mayMiss kept last.scopeEntries ∧ Entry.Bracketed kept := by
  have hstart : (start environment serial).Shows (start environment serial).scopeEntries := by
    unfold Shows
    rw [start, hglobal]
    rfl
  obtain ⟨kept, hmost, hshows⟩ := h.2 hstart
  unfold Shows at hshows
  rw [h.1, start, hglobal] at hshows
  exact ⟨kept, hmost, hshows⟩

theorem KeepsMost.bracketed_all {last : Machine}
    (h : (start environment serial).KeepsMost False last) :
    Entry.Bracketed last.scopeEntries := by
  obtain ⟨kept, hmost, hkept⟩ := h.bracketed hglobal serial
  rwa [hmost.eq] at hkept

end Global

end Machine

/-- The program `while (true) { { break; } } { { -nil; } }`: a jump out of two scopes, and a fault
inside two. -/
def breakingOut : List Stmt :=
  [.whileLoop (.literal (.boolean true))
      [.block [.breakLoop ⟨.kwBreak, "break", some "break", 1⟩]] none,
    .block [.block [.expression (.unary ⟨.minus, "-", none, 1⟩ (.literal .nil))]]]

/-- Ten calls leave room to log the scope of the third of these blocks, but not to flush that, so the
entry is left open. -/
example : ((Machine.start .empty 0).interpret ⟨2, 8, ⟨10, 3, 2, 5, by decide⟩⟩
      [.block [.block [.block []]]]).2.scopeEntries =
    [.enterScope 1, .enterScope 2, .enterScope 3, .leaveScope 2, .leaveScope 1] := by
  decide +kernel

/-! ### Programs that are read -/

namespace Grammar

/-- How many calls are open where the innermost scope of a phrase is opened. Five more are left out
below a block, which are enough for the form around it. -/
def Phrase.nesting : Phrase → Nat
  | declarations body => Stmt.nestingIn body
  | block body => Stmt.nestingIn body + 5
  | declaration stmt | statement stmt | varDecl stmt | exprStmt stmt | initializer stmt =>
    stmt.nesting
  | function _ | functions _ => 0

variable {room : Nat} {inLoop : Bool} {ts : List Token}

/-- The first clause of a `for` opens no scope. -/
theorem Forms.nesting_initializer {stmt : Stmt} (h : Forms room inLoop (.initializer stmt) ts) :
    stmt.nesting = 0 := by
  cases h with
  | initialDecl h =>
    cases h
    rfl
  | initialExpr h =>
    cases h
    rfl

theorem nesting_loop (condition step : Option Expr) (body : List Stmt) :
    (loop condition step body).nesting = Stmt.nestingIn body + 3 := rfl

/-- Each level of nesting takes five calls at most: those of a block and of a loop inside it. -/
theorem Forms.nesting_le {phrase : Phrase} (h : Forms room inLoop phrase ts) :
    phrase.nesting ≤ 5 * room := by
  induction h with
  | cons _ _ ihstmt ihrest => exact Nat.max_le.2 ⟨ihstmt, ihrest⟩
  | varDeclaration _ ih | statement _ ih | initialDecl _ ih | initialExpr _ ih | expression _ ih =>
    exact ih
  | ifThen _ _ _ _ _ ih | whileStmt _ _ _ _ _ ih | forStmt _ _ _ _ _ _ _ _ ih | blockStmt _ ih =>
    simp only [Phrase.nesting, Stmt.nesting, nesting_loop] at ih ⊢
    omega
  | ifElse _ _ _ _ _ _ _ ihbody ihother =>
    simp only [Phrase.nesting, Stmt.nesting] at ihbody ihother ⊢
    omega
  | forInitStmt _ _ hinitial _ _ _ _ _ _ ih =>
    simp only [Phrase.nesting, Stmt.nesting, Stmt.nestingIn, nesting_loop,
      hinitial.nesting_initializer] at ih ⊢
    omega
  | block _ _ _ ih =>
    simp only [Phrase.nesting] at ih ⊢
    omega
  | _ => exact Nat.zero_le _

end Grammar

namespace Session

/-- A program that is read without reports leaves room to log its scopes. -/
theorem flushes_programOf {stack : Stack} {source : String} (hclean : staticReports source = [])
    (hlimit : 5 * 64 + max stack.write stack.flush ≤ stack.limit) :
    stack.Flushes (programOf source) := by
  obtain ⟨-, hprogram⟩ := (staticReports_eq_nil_iff source _).1 ⟨hclean, rfl⟩
  have hnesting : Stmt.nestingIn (programOf source) ≤ 5 * 64 := hprogram.nesting_le
  exact .inr (by omega)

/-- Whatever source is run in the global scope, the run logs its scopes as brackets. -/
theorem bracketed_entries (rounds : Nat) {session : Session} (source : String)
    (hglobal : session.environment.depth = 0) (hverbose : 2 ≤ session.verbosity)
    (hlimit : 5 * 64 + max session.stack.write session.stack.flush ≤ session.stack.limit) :
    Entry.Bracketed ((session.entries rounds source).filter Entry.isScope) := by
  by_cases hrun : staticReports source ≠ [] ∨ session.showTree = true
  · rw [entries_of_not_executed rounds session source hrun]
    rfl
  · rw [not_or, not_not, Bool.not_eq_true] at hrun
    have hflushes := flushes_programOf hrun.1 hlimit
    rw [entries_of_clean rounds session source hrun.1 hrun.2]
    exact (Machine.keepsShowing_interpret hverbose (.inr hflushes) _).2.bracketed_all hglobal _

end Session

end Lox

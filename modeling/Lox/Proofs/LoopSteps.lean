import Lox.Proofs.EnclosedJumps
import Lox.Proofs.PairedRuns

/-!
# The step of a loop

A loop with a step evaluates it after each round. The step may as well stand at the end
of the body, in a block around the body and the step, if no `continue` skips it there.
The block is a scope in which nothing is declared: the body has a scope of its own, and
a step declares nothing. A run in which such a scope is around what is executed goes as
the run without it.
-/
namespace Lox

/-! ### A scope without names -/

namespace Environment

/-- The second chain has one more scope, without names, outside the innermost `n` scopes. -/
def Padded (n : Nat) (env env' : Environment) : Prop :=
  ∃ inner outer, inner.length = n ∧ outer ≠ [] ∧ env.scopes = inner ++ outer ∧
    env'.scopes = inner ++ .empty :: outer

variable {n : Nat} {env env' : Environment}

theorem padded_push (env : Environment) : Padded 0 env env.push :=
  ⟨[], env.scopes, rfl, List.cons_ne_nil _ _, rfl, rfl⟩

theorem exists_scopes_eq {scopes : List Scope} (h : scopes ≠ []) :
    ∃ env : Environment, env.scopes = scopes := by
  obtain ⟨own, outer, rfl⟩ := List.exists_cons_of_ne_nil h
  exact ⟨⟨own, outer⟩, rfl⟩

theorem scopes_inj (h : env.scopes = env'.scopes) : env = env' := by
  obtain ⟨own, outer⟩ := env
  obtain ⟨own', outer'⟩ := env'
  cases h
  rfl

theorem scopes_pop (h : env.outer ≠ []) : env.pop.scopes = env.outer := by
  obtain ⟨own, _ | ⟨next, outer⟩⟩ := env
  · exact absurd rfl h
  · rfl

theorem Padded.outer_eq (h : Padded (n + 1) env env') :
    ∃ inner outer, inner.length = n ∧ outer ≠ [] ∧ env.own = env'.own ∧
      env.outer = inner ++ outer ∧ env'.outer = inner ++ .empty :: outer := by
  obtain ⟨_ | ⟨own, inner⟩, outer, hlength, houter, hscopes, hscopes'⟩ := h
  · cases hlength
  · obtain ⟨hown, hrest⟩ := List.cons_eq_cons.1 hscopes
    obtain ⟨hown', hrest'⟩ := List.cons_eq_cons.1 hscopes'
    exact ⟨inner, outer, Nat.succ.inj hlength, houter, hown.trans hown'.symm, hrest, hrest'⟩

theorem Padded.push (h : Padded n env env') : Padded (n + 1) env.push env'.push := by
  obtain ⟨inner, outer, hlength, houter, hscopes, hscopes'⟩ := h
  exact ⟨.empty :: inner, outer, congrArg (· + 1) hlength, houter, congrArg (_ :: ·) hscopes,
    congrArg (_ :: ·) hscopes'⟩

theorem Padded.pop (h : Padded (n + 1) env env') : Padded n env.pop env'.pop := by
  obtain ⟨inner, outer, hlength, houter, -, hrest, hrest'⟩ := h.outer_eq
  refine ⟨inner, outer, hlength, houter, ?_, ?_⟩
  · rw [scopes_pop (by simp [hrest, houter]), hrest]
  · rw [scopes_pop (by simp [hrest']), hrest']

theorem Padded.depth_eq (h : Padded n env env') : env'.depth = env.depth + 1 := by
  obtain ⟨inner, outer, -, -, hscopes, hscopes'⟩ := h
  have hlength := congrArg List.length hscopes
  have hlength' := congrArg List.length hscopes'
  simp only [scopes, List.length_cons, List.length_append] at hlength hlength'
  unfold depth
  omega

theorem Padded.closeTo (h : Padded (n + 1) env env') {depth : Nat} (hdepth : env.depth = depth + 1) :
    Padded n (env.closeTo depth) (env'.closeTo (depth + 1)) := by
  have hdepth' := h.depth_eq
  rw [closeTo_eq_pop (by omega), closeTo_of_le (by omega), closeTo_eq_pop (by omega),
    closeTo_of_le (by omega)]
  exact h.pop

/-- Outside of it there is nothing but the first chain. -/
theorem Padded.pop_eq (h : Padded 0 env env') : env'.pop = env := by
  obtain ⟨inner, outer, hlength, houter, hscopes, hscopes'⟩ := h
  obtain rfl := List.length_eq_zero_iff.1 hlength
  have hrest : env'.outer = outer := (List.cons_eq_cons.1 hscopes').2
  apply scopes_inj
  rw [scopes_pop (hrest ▸ houter), hrest, hscopes]
  rfl

theorem Padded.define (h : Padded (n + 1) env env') (name : String) (value : Value) :
    Padded (n + 1) (env.define name value) (env'.define name value) := by
  obtain ⟨inner, outer, hlength, houter, hown, hrest, hrest'⟩ := h.outer_eq
  refine ⟨env.own.insert name value :: inner, outer, congrArg (· + 1) hlength, houter, ?_, ?_⟩
  · exact congrArg (_ :: ·) hrest
  · rw [hown]
    exact congrArg (_ :: ·) hrest'

theorem Padded.get_eq (h : Padded n env env') (name : String) : env.get name = env'.get name := by
  obtain ⟨inner, outer, -, -, hscopes, hscopes'⟩ := h
  have hempty : Scope.empty.get? name = none := rfl
  have hfound : env.get? name = env'.get? name := by
    unfold get?
    rw [hscopes, hscopes', List.findSome?_append, List.findSome?_append, List.findSome?_cons,
      hempty]
  unfold get
  rw [hfound]

/-- A name is set in the same scope, whether a scope without names is passed or not. -/
theorem assignIn_padded (name : String) (value : Value) (inner outer : List Scope) :
    (assignIn name value (inner ++ outer) = none ∧
      assignIn name value (inner ++ .empty :: outer) = none) ∨
    ∃ inner' outer', inner'.length = inner.length ∧ outer'.length = outer.length ∧
      assignIn name value (inner ++ outer) = some (inner' ++ outer') ∧
      assignIn name value (inner ++ .empty :: outer) = some (inner' ++ .empty :: outer') := by
  induction inner with
  | nil =>
    have hskip : assignIn name value (.empty :: outer) =
        (assignIn name value outer).map (Scope.empty :: ·) := rfl
    simp only [List.nil_append, hskip]
    cases hassign : assignIn name value outer with
    | none => exact .inl ⟨rfl, rfl⟩
    | some outer' => exact .inr ⟨[], outer', rfl, length_assignIn hassign, rfl, rfl⟩
  | cons scope inner ih =>
    simp only [List.cons_append, assignIn]
    by_cases hbinds : scope.binds name = true
    · rw [if_pos hbinds, if_pos hbinds]
      exact .inr ⟨scope.insert name value :: inner, outer, rfl, rfl, rfl, rfl⟩
    · rw [if_neg hbinds, if_neg hbinds]
      rcases ih with ⟨h, h'⟩ | ⟨inner', outer', hinner, houter, h, h'⟩
      · exact .inl ⟨by rw [h]; rfl, by rw [h']; rfl⟩
      · exact .inr ⟨scope :: inner', outer', congrArg (· + 1) hinner, houter, by rw [h]; rfl,
          by rw [h']; rfl⟩

theorem assign_of_none {name : String} {value : Value}
    (h : assignIn name value env.scopes = none) :
    env.assign name value = .error (.undefined name) := by
  rw [assign, h]

theorem assign_of_some {name : String} {value : Value}
    (h : assignIn name value env.scopes = some env'.scopes) :
    env.assign name value = .ok env' := by
  rw [assign, h]
  rfl

theorem depth_assign {name : String} {value : Value} (h : env.assign name value = .ok env') :
    env'.depth = env.depth := by
  unfold assign at h
  split at h <;> cases h
  next hscopes => exact Nat.succ.inj (length_assignIn hscopes)

theorem Padded.assign (h : Padded n env env') (name : String) (value : Value) :
    (env.assign name value = .error (.undefined name) ∧
      env'.assign name value = .error (.undefined name)) ∨
    ∃ set set', env.assign name value = .ok set ∧ env'.assign name value = .ok set' ∧
      Padded n set set' := by
  obtain ⟨inner, outer, hlength, houter, hscopes, hscopes'⟩ := h
  rcases assignIn_padded name value inner outer with
    ⟨hnone, hnone'⟩ | ⟨inner', outer', hinner, houter', hsome, hsome'⟩
  · rw [← hscopes] at hnone
    rw [← hscopes'] at hnone'
    exact .inl ⟨assign_of_none hnone, assign_of_none hnone'⟩
  · have hne : outer' ≠ [] := by
      intro hnil
      rw [hnil] at houter'
      exact houter (List.length_eq_zero_iff.1 houter'.symm)
    obtain ⟨set, hset⟩ := exists_scopes_eq (List.append_ne_nil_of_right_ne_nil inner' hne)
    obtain ⟨set', hset'⟩ := exists_scopes_eq
      (List.append_ne_nil_of_right_ne_nil inner' (List.cons_ne_nil Scope.empty outer'))
    rw [← hscopes, ← hset] at hsome
    rw [← hscopes', ← hset'] at hsome'
    exact .inr ⟨set, set', assign_of_some hsome, assign_of_some hsome', inner', outer',
      hinner.trans hlength, hne, hset, hset'⟩

end Environment

/-- The second machine has one more scope, without names, around the `n` scopes that have been opened
since `depth` scopes were around the innermost one of the first. -/
structure Machine.Padded (depth n : Nat) (m m' : Machine) : Prop where
  serial : m.serial = m'.serial
  events : m.events = m'.events
  depth : m.environment.depth = depth + n
  environment : Environment.Padded n m.environment m'.environment

/-- The second machine has one more scope, without names. Its run may be cut off for want of room. -/
def Pairing.padded (settings : Settings) (hquiet : settings.verbosity = 0) (depth : Nat) :
    Pairing settings settings where
  At := Machine.Padded depth
  MayCut := True
  logsMore := settings.logsMore_rfl
  exact := .inl trivial
  depth_eq _ := .inr ⟨hquiet, hquiet⟩
  serial_eq h := h.serial
  withSerial h _ := ⟨rfl, h.events, h.depth, h.environment⟩
  get_eq h := h.environment.get_eq
  assign h name value := by
    rcases h.environment.assign name value with herror | ⟨set, set', hok, hok', hpadded⟩
    · exact .inl ⟨name, herror⟩
    · exact .inr ⟨set, set', hok, hok', h.serial, h.events,
        (Environment.depth_assign hok).trans h.depth, hpadded⟩
  define h name value := ⟨h.serial, h.events, h.depth, h.environment.define name value⟩
  print h text := ⟨h.serial, congrArg (_ :: ·) h.events, h.depth, h.environment⟩
  log h entry := by
    rw [Machine.log_of_quiet hquiet, Machine.log_of_quiet hquiet]
    exact h
  openScope h := ⟨h.serial, h.events, congrArg (· + 1) h.depth, h.environment.push⟩
  closeTo {n m m' l l'} h hl := by
    have hdepth : l.environment.depth = m.environment.depth + 1 := by
      rw [hl.depth, h.depth, Nat.add_assoc]
    rw [h.environment.depth_eq]
    refine ⟨hl.serial, hl.events, ?_, hl.environment.closeTo hdepth⟩
    exact (Environment.depth_closeTo (by omega)).trans h.depth
  leftOpen := .inl trivial

namespace Exec

variable {α : Type} {T : Token → Token → Prop} {settings : Settings}
  (hquiet : settings.verbosity = 0)

include hquiet

theorem log_of_quiet (room : Nat) (entry : Entry) (machine : Machine) :
    log settings room entry machine = .ok () machine := by
  have hlevel := entry.level_pos
  exact log_eq_ok.2 ⟨fun hle => by omega, (Machine.log_of_quiet hquiet entry machine).symm⟩

/-- A form does what it asks for, unless it is cut off. -/
theorem paired_form_of_quiet {p : Pairing settings settings} (hcut : p.MayCut) {n room : Nat}
    {name : String} {first : Exec Unit} {second : Nat → Exec Unit}
    (h : ∀ rest, room = rest + 1 → Paired T p n first (second rest)) :
    Paired T p n first (form settings room name second) := by
  intro m m' hm
  cases room with
  | zero => exact .cut hcut
  | succ rest =>
    change Ends T p n (first m) ((log settings rest _ >>= fun _ => second rest) m')
    rw [bind_of_ok (log_of_quiet hquiet rest _ m')]
    exact h rest rfl m m' hm

/-- A block that leaves its own scope without names is as what it executes, unless it is cut off. -/
theorem paired_block_of_padded {n room : Nat} {first : Exec Unit} {second : Nat → Exec Unit}
    (h : ∀ rest depth, room = rest + 2 →
      Paired Eq (.padded settings hquiet depth) 0 first (second rest)) :
    Paired Eq (Retelling.same settings True).pairing n first (block settings room second) := by
  refine paired_form_of_quiet hquiet trivial fun room hroom => ?_
  intro machine m' hm
  obtain rfl := Retelling.eq_of_same hm
  cases room with
  | zero => exact .cut trivial
  | succ rest =>
    have henter : enterScope settings rest m' = .ok () m'.openScope :=
      log_of_quiet hquiet rest _ m'.openScope
    have hleave {m l : Machine} (hl : m.Padded m'.environment.depth 0 l) :
        l.leaveScope settings.verbosity m'.environment.depth = m := by
      have hdepth : l.environment.depth = m'.environment.depth + 1 := by
        rw [hl.environment.depth_eq, hl.depth, Nat.add_zero]
      rw [Machine.leaveScope, Machine.log_of_quiet hquiet, Machine.closeTo,
        Environment.closeTo_eq_pop (by omega), Environment.closeTo_of_le (by omega),
        hl.environment.pop_eq, ← hl.serial, ← hl.events]
    have hrun := h rest m'.environment.depth (by omega) m' m'.openScope
      ⟨rfl, rfl, rfl, m'.environment.padded_push⟩
    change Ends Eq _ n (first m') ((enterScope settings rest >>= fun _ =>
      leaving settings m'.environment.depth (second rest)) m')
    rw [bind_of_ok henter]
    unfold leaving
    generalize first m' = result at hrun ⊢
    generalize second rest m'.openScope = result' at hrun ⊢
    cases hrun with
    | ok a hleft => exact .ok a (hleave hleft ▸ ⟨rfl, rfl, rfl⟩)
    | error hinterrupt hleft => exact .error hinterrupt (hleave hleft ▸ ⟨rfl, rfl, rfl⟩)
    | cut => exact .cut trivial

end Exec

/-! ### Bodies without `continue` -/

mutual

/-- Some `continue` in the statement is about the loop around it. -/
def Stmt.continues : Stmt → Bool
  | .continueLoop _ => true
  | .block body | .ifThen _ body => Stmt.continuesIn body
  | .ifElse _ body alternative => Stmt.continuesIn body || Stmt.continuesIn alternative
  -- a loop keeps every `continue` of its body, and a function has loops of its own
  | .whileLoop .. | .functionDecl _ | .classDecl .. => false
  | .expression _ | .print _ | .varDecl .. | .returnValue .. | .breakLoop _ | .empty
  | .error .. => false

/-- Some `continue` in the statements is about the loop around them. -/
def Stmt.continuesIn : List Stmt → Bool
  | [] => false
  | stmt :: rest => stmt.continues || Stmt.continuesIn rest

end

/-- The action does not end by `continue`. -/
abbrev Exec.NeverContinues {α : Type} (a : Exec α) : Prop := Avoids [.continueLoop] a

open Exec

mutual

/-- A statement without `continue` does not end by one. -/
theorem Stmt.neverContinues_execute (settings : Settings) (room : Nat) (stmt : Stmt)
    (h : stmt.continues = false) : NeverContinues (stmt.execute settings room) := by
  have hjumps : [Interrupt.continueLoop] ⊆ [.breakLoop, .continueLoop] := by simp
  cases stmt with
  | block body =>
    exact .block hjumps fun rest => Stmt.neverContinues_executeAll settings rest body h
  | ifThen condition body =>
    refine .form hjumps fun rest => ((contained_condition _ _ _).avoids hjumps).bind fun taken =>
      ((contained_log settings rest _).avoids hjumps).bind fun _ => ?_
    split
    · exact .block hjumps fun rest => Stmt.neverContinues_executeAll settings rest body h
    · exact avoids_pure _
  | ifElse condition body alternative =>
    obtain ⟨hbody, halternative⟩ := Bool.or_eq_false_iff.1 h
    refine .form hjumps fun rest => ((contained_condition _ _ _).avoids hjumps).bind fun taken =>
      ((contained_log settings rest _).avoids hjumps).bind fun _ => ?_
    split
    · exact .block hjumps fun rest => Stmt.neverContinues_executeAll settings rest body hbody
    · exact .block hjumps fun rest =>
        Stmt.neverContinues_executeAll settings rest alternative halternative
  | breakLoop keyword => exact .form hjumps fun _ => avoids_throw (by simp)
  | continueLoop keyword => cases h
  | whileLoop condition body step =>
    refine .form hjumps fun _ => Contained.avoids ?_ hjumps
    exact Contained.loop _ (contained_condition _ _ _) (contained_optional _ _ _) _
  | functionDecl | classDecl =>
    exact .form hjumps fun _ => (contained_throw_fault _).avoids hjumps
  | expression | print | varDecl | returnValue | empty | error =>
    exact (Stmt.contained_execute settings room _ rfl).avoids hjumps

/-- Statements without `continue` do not end by one. -/
theorem Stmt.neverContinues_executeAll (settings : Settings) (room : Nat) (body : List Stmt)
    (h : Stmt.continuesIn body = false) : NeverContinues (Stmt.executeAll settings room body) := by
  cases body with
  | nil => exact avoids_pure _
  | cons stmt rest =>
    obtain ⟨hstmt, hrest⟩ := Bool.or_eq_false_iff.1 h
    exact (Stmt.neverContinues_execute settings room stmt hstmt).bind fun _ =>
      Stmt.neverContinues_executeAll settings room rest hrest

end

/-! ### The step in the body -/

namespace Exec

variable {body step : Exec Unit} (hbody : NeverContinues body) (hstep : Contained step)

include hbody hstep

/-- A round that ends with the step is a round and then the step. -/
theorem round_bind_step :
    round (body >>= fun _ => step) =
      round body >>= fun goesOn => if goesOn then step >>= fun _ => pure true else pure false := by
  funext machine
  have hnot := hbody machine
  cases hrun : body machine with
  | ok _ middle =>
    have hround : round body machine = .ok true middle := by rw [round, hrun]
    have hjumps := hstep middle
    rw [bind_of_ok hround, round, bind_of_ok hrun]
    simp only [if_true]
    cases hlast : step middle with
    | ok _ final => rw [bind_of_ok hlast]; rfl
    | error interrupt final =>
      rw [bind_of_error hlast]
      cases interrupt with
      | breakLoop | continueLoop => exact absurd (hjumps _ _ hlast) (by simp)
      | fault | tooDeep | outOfRounds => rfl
  | error interrupt middle =>
    rw [round, bind_of_error hrun]
    cases interrupt with
    | continueLoop => exact absurd (hnot _ _ hrun) (by simp)
    | breakLoop =>
      have hround : round body machine = .ok false middle := by rw [round, hrun]
      rw [bind_of_ok hround]
      rfl
    | fault | tooDeep | outOfRounds =>
      rw [bind_of_error (by rw [round, hrun])]

/-- In every number of rounds, a step at the end of the body does what a step of the loop does. -/
theorem loop_step_in_body (condition : Exec Bool) (rounds : Nat) :
    loop condition (body >>= fun _ => step) (pure ()) rounds =
      loop condition body step rounds := by
  induction rounds with
  | zero => rfl
  | succ rounds ih =>
    simp only [loop, ih, round_bind_step hbody hstep, bind_assoc]
    congr 1
    funext holds
    cases holds with
    | false => rfl
    | true =>
      simp only [if_true]
      congr 1
      funext goesOn
      cases goesOn <;> simp

end Exec

/-- The step of a loop may stand at the end of its body, in a block around both, if no `continue` of
the body is about this loop: without a log, both loops do the same on every machine and for every
bound on the rounds, with the same output, the same scopes and the same ending, unless the second,
in which the calls nest deeper, is cut off for want of room. -/
theorem Stmt.execute_step_in_body (settings : Settings) (hquiet : settings.verbosity = 0)
    (condition step : Expr) (body : List Stmt) (hbody : Stmt.continuesIn body = false) (room : Nat)
    (machine : Machine)
    (hroom : ∀ final,
      (Stmt.whileLoop condition [.block body, .expression step] none).execute settings room machine ≠
        .error .tooDeep final) :
    (Stmt.whileLoop condition body (some step)).execute settings room machine =
      (Stmt.whileLoop condition [.block body, .expression step] none).execute settings room
        machine := by
  have hT : ∀ s t : Token, s = t → s.kind.Twin t.kind := fun s t h => h ▸ .same _
  have hround (room : Nat) : Paired Eq (Retelling.same settings True).pairing 0
      (Exec.block settings room (fun room => Stmt.executeAll settings room body) >>= fun _ =>
        Exec.optional settings room (some step))
      (Exec.block settings room fun room =>
        Stmt.executeAll settings room [.block body, .expression step]) := by
    refine paired_block_of_padded hquiet fun rest depth hrest => ?_
    have hfits {least : Nat} (hle : least ≤ room) :
        (Pairing.padded settings hquiet depth).Fits room least := ⟨hle, .inl trivial⟩
    have hbodies : Paired Eq (.padded settings hquiet depth) 0
        (Exec.block settings room fun room => Stmt.executeAll settings room body)
        ((Stmt.block body).execute settings rest) := by
      rw [Stmt.execute]
      exact .block (hfits (by omega)) fun _ _ hrest =>
        Stmt.paired_executeAll hT 0 body (Stmt.likeAll_rfl body) hrest
    have hsteps : Paired Eq (.padded settings hquiet depth) 0
        (Exec.optional settings room (some step))
        ((Stmt.expression step).execute settings rest) := by
      rw [Stmt.execute]
      exact paired_form_of_quiet hquiet trivial fun rest' hrest' =>
        (step.like_rfl.paired_evaluate hT (hfits (by omega))).discard
    rw [Stmt.executeAll, Stmt.executeAll, Stmt.executeAll, bind_pure_unit]
    exact hbodies.bind fun _ => hsteps
  have hnever (room : Nat) :
      NeverContinues (Exec.block settings room fun room => Stmt.executeAll settings room body) :=
    .block (by simp) fun rest => Stmt.neverContinues_executeAll settings rest body hbody
  have hloops : Paired Eq (Retelling.same settings True).pairing 0
      ((Stmt.whileLoop condition body (some step)).execute settings room)
      ((Stmt.whileLoop condition [.block body, .expression step] none).execute settings room) := by
    rw [Stmt.execute, Stmt.execute]
    cases room with
    | zero => exact paired_throw .tooDeep
    | succ rest =>
      refine (paired_log (Pairing.fits_rfl rest) _).bind fun _ => ?_
      dsimp only
      rw [← loop_step_in_body (hnever rest) (contained_optional settings rest (some step))]
      exact (condition.like_rfl.paired_condition hT (Pairing.fits_rfl rest)).loop (hround rest)
        (paired_pure ()) settings.rounds
  have hends := hloops machine machine ⟨rfl, rfl, rfl⟩
  generalize (Stmt.whileLoop condition body (some step)).execute settings room machine = result
    at hends ⊢
  generalize (Stmt.whileLoop condition [.block body, .expression step] none).execute settings room
    machine = result' at hends hroom ⊢
  cases hends with
  | ok _ hleft => rw [Retelling.eq_of_same hleft]
  | error hinterrupt hleft => rw [Retelling.eq_of_same hleft, hinterrupt.eq]
  | cut => exact absurd rfl (hroom _)

/-- The name of a variable. -/
def restlessName : Token := ⟨.identifier, "on", some "on", 1⟩

/-- A body with a loop in it whose rounds are cut short, and with a variable of its own. -/
def restless : List Stmt :=
  [.whileLoop (.ident restlessName)
      [.expression (.assign restlessName (.literal (.boolean false))),
        .continueLoop ⟨.kwContinue, "continue", some "continue", 1⟩] none,
    .print (.ident restlessName),
    .varDecl restlessName none]

/-- A machine with one variable, which is true. -/
def restlessStart : Machine := .start (Environment.empty.define "on" (.boolean true)) 0

/-- The step sets the variable around the loop and not that of the body, so the second test of the
condition fails. -/
theorem restless_step_in_body :
    Stmt.continuesIn restless = false ∧
      (Stmt.whileLoop (.ident restlessName) restless
          (some (.assign restlessName (.literal .nil)))).execute ⟨0, 4, .standard⟩ 20 restlessStart =
        (Stmt.whileLoop (.ident restlessName)
          [.block restless, .expression (.assign restlessName (.literal .nil))] none).execute
            ⟨0, 4, .standard⟩ 20 restlessStart ∧
      Exec.runOn restlessStart ((Stmt.whileLoop (.ident restlessName)
          [.block restless, .expression (.assign restlessName (.literal .nil))] none).execute
            ⟨0, 4, .standard⟩ 20) =
        (.error (.fault (.condition .nil)),
          ⟨Environment.empty.define "on" .nil, 0, [.printed "false"]⟩) := by
  have hbody : Stmt.continuesIn restless = false := by decide
  have hroom : ∀ final, (Stmt.whileLoop (.ident restlessName)
      [.block restless, .expression (.assign restlessName (.literal .nil))] none).execute
        ⟨0, 4, .standard⟩ 20 restlessStart ≠ .error .tooDeep final := fun final h => by cases h
  have hsame := Stmt.execute_step_in_body ⟨0, 4, .standard⟩ rfl (.ident restlessName)
    (.assign restlessName (.literal .nil)) restless hbody 20 restlessStart hroom
  exact ⟨hbody, hsame, rfl⟩

end Lox

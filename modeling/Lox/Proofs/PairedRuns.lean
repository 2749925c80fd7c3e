import Lox.Execution
import Lox.Proofs.Actions
import Lox.Proofs.LikePrograms

/-!
# Two runs side by side

Two programs that are alike run side by side, each on its own machine. The machines
correspond in a way that every basic action keeps: reading and setting a name, declaring
one, opening and closing a scope, writing. Then the runs correspond as a whole. They
give the same values, take the same branches and the same number of rounds, and end in
the same way, by faults that are alike if they end by faults.

The second run may log more than the first, and may be given less room. Then it may
end for want of room where the first goes on, and nothing is said about it.
-/
namespace Lox

namespace Kind

/-- The ways to write a conjunction. -/
def conjunctions : List Kind := [.andAnd, .kwAnd]

/-- The ways to write a disjunction. -/
def disjunctions : List Kind := [.orOr, .kwOr]

/-- Written as a conjunction or disjunction. -/
def IsLogical (kind : Kind) : Prop := kind ∈ conjunctions ∨ kind ∈ disjunctions

instance : DecidablePred IsLogical := fun _ => inferInstanceAs (Decidable (_ ∨ _))

/-- The same class, or two ways to write the same operator. -/
inductive Twin : Kind → Kind → Prop
  | same (kind : Kind) : Twin kind kind
  | conjunction {kind kind'} : kind ∈ conjunctions → kind' ∈ conjunctions → Twin kind kind'
  | disjunction {kind kind'} : kind ∈ disjunctions → kind' ∈ disjunctions → Twin kind kind'

theorem IsLogical.cases {kind : Kind} (h : kind.IsLogical) :
    kind = .andAnd ∨ kind = .kwAnd ∨ kind = .orOr ∨ kind = .kwOr := by
  simpa [IsLogical, conjunctions, disjunctions, or_assoc] using h

theorem Twin.eq_or_logical {kind kind' : Kind} (h : Twin kind kind') :
    kind = kind' ∨ kind.IsLogical ∧ kind'.IsLogical := by
  cases h with
  | same => exact .inl rfl
  | conjunction h h' => exact .inr ⟨.inl h, .inl h'⟩
  | disjunction h h' => exact .inr ⟨.inr h, .inr h'⟩

end Kind

variable {α β : Type} {T : Token → Token → Prop}

/-- The same result, or faults that are alike. -/
inductive Fault.Answers (T : Token → Token → Prop) : Except Fault α → Except Fault α → Prop
  | ok (a : α) : Answers T (.ok a) (.ok a)
  | error {fault fault'} : fault.Like T fault' → Answers T (.error fault) (.error fault')

/-! ### Operators -/

namespace Operator

variable {op op' : Token} (origin : Origin)

/-- A logical operator is not applied to a single operand. -/
theorem unary_of_logical (h : op.kind.IsLogical) (operand : Value) :
    unary origin op operand = .error (.unaryOperator op) := by
  unfold unary
  rcases h.cases with h | h | h | h <;> rw [h]

/-- A logical operator does not compute with numbers. -/
theorem numeric_of_logical (h : op.kind.IsLogical) (x y : Float) :
    numeric origin op x y = .error (.binaryOperator op) := by
  unfold numeric
  rcases h.cases with h | h | h | h <;> rw [h]

/-- A logical operator is not applied to two operands. Their types are judged first. -/
theorem binary_of_logical (h : op.kind.IsLogical) (left right : Value) :
    binary origin op left right =
      .error (if left.type = .number ∧ right.type = .number then .binaryOperator op
        else .numericOperands op left.type right.type) := by
  have hkind : op.kind ≠ .equalEqual ∧ op.kind ≠ .bangEqual := by
    rcases h.cases with h | h | h | h <;> simp [h]
  unfold binary
  split
  · next hequal => exact absurd hequal hkind.1
  · next hdiffer => exact absurd hdiffer hkind.2
  · split
    · exact numeric_of_logical origin h _ _
    · next hnumbers =>
      have htypes : ¬(left.type = .number ∧ right.type = .number) := by
        cases left <;> cases right <;> simp_all [Value.type]
      rw [if_neg htypes]

variable (h : T op op') (hkind : op.kind.Twin op'.kind)

include h hkind

theorem answers_unary (operand : Value) :
    Fault.Answers T (unary origin op operand) (unary origin op' operand) := by
  rcases hkind.eq_or_logical with heq | ⟨hlogical, hlogical'⟩
  · unfold unary
    rw [heq]
    cases op'.kind with
    | minus =>
      cases operand with
      | number n => exact .ok _
      | _ => exact .error (.negatedOperand _ h)
    | bang =>
      cases operand with
      | boolean b => exact .ok _
      | _ => exact .error (.invertedOperand _ h)
    | _ => exact .error (.unaryOperator h)
  · rw [unary_of_logical origin hlogical, unary_of_logical origin hlogical']
    exact .error (.unaryOperator h)

theorem answers_numeric (x y : Float) :
    Fault.Answers T (numeric origin op x y) (numeric origin op' x y) := by
  rcases hkind.eq_or_logical with heq | ⟨hlogical, hlogical'⟩
  · unfold numeric
    rw [heq]
    cases op'.kind with
    | plus | minus | star | greater | greaterEqual | less | lessEqual => exact .ok _
    | slash =>
      dsimp only
      split
      · exact .error (.divisionByZero h)
      · exact .ok _
    | _ => exact .error (.binaryOperator h)
  · rw [numeric_of_logical origin hlogical, numeric_of_logical origin hlogical']
    exact .error (.binaryOperator h)

theorem answers_binary (left right : Value) :
    Fault.Answers T (binary origin op left right) (binary origin op' left right) := by
  rcases hkind.eq_or_logical with heq | ⟨hlogical, hlogical'⟩
  · unfold binary
    rw [heq]
    split
    · exact .ok _
    · exact .ok _
    · split
      · exact answers_numeric origin h hkind _ _
      · exact .error (.numericOperands _ _ h)
  · rw [binary_of_logical origin hlogical, binary_of_logical origin hlogical']
    split
    · exact .error (.binaryOperator h)
    · exact .error (.numericOperands _ _ h)

omit hkind in
theorem answers_truth (value : Value) :
    Fault.Answers T (truth op value) (truth op' value) := by
  cases value with
  | boolean b => exact .ok b
  | _ => exact .error (.logicalOperand _ h)

omit h in
/-- Twins go on to their right operands in the same cases. -/
theorem goesOn_twin (left : Bool) : goesOn op left = goesOn op' left := by
  have hneither : ∀ k ∈ Kind.conjunctions, ¬(k = .orOr ∨ k = .kwOr) := by decide
  have heither : ∀ k ∈ Kind.disjunctions, k = .orOr ∨ k = .kwOr := by decide
  unfold goesOn
  generalize op.kind = kind at hkind ⊢
  generalize op'.kind = kind' at hkind ⊢
  cases hkind with
  | same => rfl
  | conjunction h h' => rw [if_neg (hneither _ h), if_neg (hneither _ h')]
  | disjunction h h' => rw [if_pos (heither _ h), if_pos (heither _ h')]

end Operator

/-! ### Machines that correspond -/

/-- Nothing is logged without verbosity. -/
theorem Machine.log_of_quiet {verbosity : Nat} (h : verbosity = 0) (entry : Entry)
    (machine : Machine) : machine.log verbosity entry = machine := by
  have hlevel := entry.level_pos
  rw [log, if_neg (by omega)]

theorem Machine.serial_log (verbosity : Nat) (entry : Entry) (machine : Machine) :
    (machine.log verbosity entry).serial = machine.serial := by
  unfold log
  split <;> rfl

/-- The same settings, but for a verbosity that may be higher. -/
structure Settings.LogsMore (settings settings' : Settings) : Prop where
  rounds : settings'.rounds = settings.rounds
  stack : settings'.stack = settings.stack
  verbosity : settings.verbosity ≤ settings'.verbosity

theorem Settings.logsMore_rfl (settings : Settings) : settings.LogsMore settings :=
  ⟨rfl, rfl, Nat.le_refl _⟩

theorem Settings.exact_rfl (settings : Settings) (mayCut : Prop) : mayCut ∨ settings = settings :=
  .inr rfl

/-- A correspondence of the machines of two runs that the basic actions keep. The number tells how
many scopes have been opened on both machines; without any, nothing may be declared. -/
structure Pairing (settings settings' : Settings) where
  At : Nat → Machine → Machine → Prop
  /-- The second run may be cut off for want of room. -/
  MayCut : Prop
  logsMore : settings.LogsMore settings'
  exact : MayCut ∨ settings' = settings
  depth_eq : ∀ {n m m'}, At n m m' → m'.environment.depth = m.environment.depth ∨
    settings.verbosity = 0 ∧ settings'.verbosity = 0
  serial_eq : ∀ {n m m'}, At n m m' → m.serial = m'.serial
  withSerial : ∀ {n m m'}, At n m m' → ∀ serial, At n { m with serial } { m' with serial }
  get_eq : ∀ {n m m'}, At n m m' → ∀ name, m.environment.get name = m'.environment.get name
  assign : ∀ {n m m'}, At n m m' → ∀ name value,
    (∃ fault, m.environment.assign name value = .error (.undefined fault) ∧
      m'.environment.assign name value = .error (.undefined fault)) ∨
    ∃ environment environment', m.environment.assign name value = .ok environment ∧
      m'.environment.assign name value = .ok environment' ∧
      At n { m with environment } { m' with environment := environment' }
  define : ∀ {n m m'}, At (n + 1) m m' → ∀ name value,
    At (n + 1) { m with environment := m.environment.define name value }
      { m' with environment := m'.environment.define name value }
  print : ∀ {n m m'}, At n m m' → ∀ text, At n (m.print text) (m'.print text)
  log : ∀ {n m m'}, At n m m' → ∀ entry,
    At n (m.log settings.verbosity entry) (m'.log settings'.verbosity entry)
  openScope : ∀ {n m m'}, At n m m' → At (n + 1) m.openScope m'.openScope
  closeTo : ∀ {n m m' l l'}, At n m m' → At (n + 1) l l' →
    At n (l.closeTo m.environment.depth) (l'.closeTo m'.environment.depth)
  /-- A scope that is left open does not matter where the second run is not cut off. -/
  leftOpen : MayCut ∨ ∀ {n m m'}, At (n + 1) m m' → At n m m'

/-- A way to tell the events of a run under `settings` as those of a run under `settings'`. -/
structure Retelling (settings settings' : Settings) where
  Told : List Event → List Event → Prop
  /-- The second run may be cut off for want of room. -/
  MayCut : Prop
  logsMore : settings.LogsMore settings'
  exact : MayCut ∨ settings' = settings
  print : ∀ {events events'}, Told events events' → ∀ text,
    Told (.printed text :: events) (.printed text :: events')
  log : ∀ {m m' : Machine}, Told m.events m'.events → ∀ entry,
    Told (m.log settings.verbosity entry).events (m'.log settings'.verbosity entry).events

namespace Retelling

variable {settings settings' : Settings}

/-- The machines have the same environment and serial number, and their events are told. -/
structure At (v : Retelling settings settings') (m m' : Machine) : Prop where
  environment : m'.environment = m.environment
  serial : m'.serial = m.serial
  events : v.Told m.events m'.events

/-- The machines differ in their events only. -/
theorem At.eq_withEvents {v : Retelling settings settings'} {m m' : Machine} (h : v.At m m') :
    m' = { m with events := m'.events } := by
  rw [← h.environment, ← h.serial]

/-- Runs whose events are told correspond. -/
def pairing (v : Retelling settings settings') : Pairing settings settings' where
  At _ := v.At
  MayCut := v.MayCut
  logsMore := v.logsMore
  exact := v.exact
  depth_eq h := .inl (by rw [h.environment])
  serial_eq h := h.serial.symm
  withSerial h _ := ⟨h.environment, rfl, h.events⟩
  get_eq h _ := by rw [h.environment]
  assign {n m m'} h name value := by
    rw [h.environment]
    cases hassign : m.environment.assign name value with
    | ok environment => exact .inr ⟨environment, environment, rfl, rfl, rfl, h.serial, h.events⟩
    | error fault =>
      unfold Environment.assign at hassign
      split at hassign <;> cases hassign
      exact .inl ⟨name, rfl, rfl⟩
  define h _ _ := ⟨by rw [h.environment], h.serial, h.events⟩
  print h text := ⟨h.environment, h.serial, v.print h.events text⟩
  log h entry := by
    refine ⟨?_, ?_, v.log h.events entry⟩
    · rw [Exec.environment_log, Exec.environment_log, h.environment]
    · rw [Machine.serial_log, Machine.serial_log, h.serial]
  openScope h := ⟨congrArg Environment.push h.environment, h.serial, h.events⟩
  closeTo h hl := by
    rw [h.environment]
    exact ⟨congrArg (Environment.closeTo · _) hl.environment, hl.serial, hl.events⟩
  leftOpen := .inr id

/-- The events of a run are told as they are, with or without the second run being cut off. -/
def same (settings : Settings) (mayCut : Prop) : Retelling settings settings where
  Told := Eq
  MayCut := mayCut
  logsMore := settings.logsMore_rfl
  exact := settings.exact_rfl mayCut
  print h _ := by rw [h]
  log h entry := by
    unfold Machine.log
    split
    · exact congrArg (.logged entry :: ·) h
    · exact h

theorem eq_of_same {mayCut : Prop} {m m' : Machine} (h : (same settings mayCut).At m m') :
    m' = m := by
  have hevents : m.events = m'.events := h.events
  rw [h.eq_withEvents, ← hevents]

/-- The events of a run are told as they are, after those of the past. -/
def after (settings : Settings) (past : List Event) : Retelling settings settings where
  Told events events' := events' = events ++ past
  MayCut := False
  logsMore := settings.logsMore_rfl
  exact := settings.exact_rfl False
  print h _ := by rw [h, List.cons_append]
  log h entry := by
    unfold Machine.log
    split
    · exact congrArg (.logged entry :: ·) h
    · exact h

end Retelling

/-- Interrupts that are alike. -/
inductive Interrupt.Like (T : Token → Token → Prop) : Interrupt → Interrupt → Prop
  | breakLoop : Like T .breakLoop .breakLoop
  | continueLoop : Like T .continueLoop .continueLoop
  | fault {cause cause'} : cause.Like T cause' → Like T (.fault cause) (.fault cause')
  | tooDeep : Like T .tooDeep .tooDeep
  | outOfRounds : Like T .outOfRounds .outOfRounds

theorem Interrupt.Like.eq {interrupt interrupt' : Interrupt} (h : interrupt.Like Eq interrupt') :
    interrupt = interrupt' := by
  cases h with
  | fault h => rw [h.eq]
  | _ => rfl

namespace Pairing

variable {settings settings' : Settings} {p : Pairing settings settings'} {n : Nat}

/-- The second run has no more room than the first, and as much if it is not cut off. -/
structure Fits (p : Pairing settings settings') (room room' : Nat) : Prop where
  le : room' ≤ room
  exact : p.MayCut ∨ room' = room

theorem fits_rfl (room : Nat) : p.Fits room room := ⟨Nat.le_refl _, .inr rfl⟩

/-- The depth of a scope is logged on both machines, if it is logged. -/
theorem logDepth {m m' l l' : Machine} {k : Nat} (h : p.At n m m') (hl : p.At k l l')
    (entry : Nat → Entry) :
    p.At k (l.log settings.verbosity (entry m.environment.depth))
      (l'.log settings'.verbosity (entry m'.environment.depth)) := by
  rcases p.depth_eq h with hdepth | ⟨hquiet, hquiet'⟩
  · rw [hdepth]
    exact p.log hl _
  · rw [Machine.log_of_quiet hquiet, Machine.log_of_quiet hquiet']
    exact hl

end Pairing

namespace Exec

variable {settings settings' : Settings}

/-- How two runs end: with the same result, or with interrupts that are alike, on machines that
correspond, or the second is cut off. -/
inductive Ends (T : Token → Token → Prop) (p : Pairing settings settings') (n : Nat) :
    EStateM.Result Interrupt Machine α → EStateM.Result Interrupt Machine α → Prop
  | ok {m m'} (a : α) : p.At n m m' → Ends T p n (.ok a m) (.ok a m')
  | error {m m' interrupt interrupt'} : interrupt.Like T interrupt' → p.At n m m' →
      Ends T p n (.error interrupt m) (.error interrupt' m')
  | cut {result m'} : p.MayCut → Ends T p n result (.error .tooDeep m')

/-- The actions, on machines that correspond, leave machines that correspond. -/
def Paired (T : Token → Token → Prop) (p : Pairing settings settings') (n : Nat)
    (first second : Exec α) : Prop :=
  ∀ m m', p.At n m m' → Ends T p n (first m) (second m')

variable {p : Pairing settings settings'} {n room room' : Nat}

theorem paired_pure (a : α) : Paired T p n (pure a) (pure a) := fun _ _ h => .ok a h

theorem paired_throw {interrupt interrupt' : Interrupt} (h : interrupt.Like T interrupt') :
    Paired T p n (throw interrupt : Exec α) (throw interrupt') := fun _ _ hm => .error h hm

theorem Paired.bind {first second : Exec α} {next next' : α → Exec β}
    (h : Paired T p n first second) (hnext : ∀ a, Paired T p n (next a) (next' a)) :
    Paired T p n (first >>= next) (second >>= next') := by
  intro m m' hm
  have hfirst := h m m' hm
  generalize hrun : first m = result at hfirst
  generalize hrun' : second m' = result' at hfirst
  cases hfirst with
  | ok a hleft =>
    rw [bind_of_ok hrun, bind_of_ok hrun']
    exact hnext a _ _ hleft
  | error hinterrupt hleft =>
    rw [bind_of_error hrun, bind_of_error hrun']
    exact .error hinterrupt hleft
  | cut hcut =>
    rw [bind_of_error hrun']
    exact .cut hcut

theorem Paired.discard {first second : Exec α} (h : Paired T p n first second) :
    Paired T p n (discard first) (discard second) :=
  h.bind fun _ => paired_pure _

theorem paired_modify {change change' : Machine → Machine}
    (h : ∀ {m m'}, p.At n m m' → p.At n (change m) (change' m')) :
    Paired T p n (modify change) (modify change') := fun _ _ hm => .ok () (h hm)

/-- A call that the second run has room for can be opened in the first. -/
theorem Paired.call (hroom : p.Fits room room') {action action' : Nat → Exec α}
    (h : ∀ rest rest', p.Fits rest rest' → Paired T p n (action rest) (action' rest')) :
    Paired T p n (call room action) (call room' action') := by
  obtain ⟨hle, hexact⟩ := hroom
  cases room' with
  | zero =>
    rcases hexact with hcut | rfl
    · exact fun _ _ _ => .cut hcut
    · exact paired_throw .tooDeep
  | succ rest' =>
    obtain ⟨rest, rfl⟩ := Nat.exists_eq_succ_of_ne_zero (Nat.ne_of_gt (Nat.lt_of_lt_of_le
      (Nat.succ_pos rest') hle))
    exact h rest rest' ⟨Nat.le_of_succ_le_succ hle, hexact.imp_right Nat.succ.inj⟩

/-- What the second run has room to log is logged in the first, if it is logged there at all. -/
theorem ends_log (hroom : p.Fits room room') {entry entry' : Entry} {m m' : Machine}
    (hlevel : entry'.level = entry.level) (hvalue : entry'.showsValue = entry.showsValue)
    (hm : p.At n m m')
    (hlogged : p.At n (m.log settings.verbosity entry) (m'.log settings'.verbosity entry')) :
    Ends T p n (log settings room entry m) (log settings' room' entry' m') := by
  have hwrite (stack : Stack) : stack.toWrite entry' = stack.toWrite entry := by
    rw [Stack.toWrite, Stack.toWrite, hvalue]
  by_cases hcut : p.MayCut
  · cases hrun : log settings' room' entry' m' with
    | ok u final =>
      obtain ⟨hfits, rfl⟩ := log_eq_ok.1 hrun
      have hsame : log settings room entry m = .ok u (m.log settings.verbosity entry) := by
        refine log_eq_ok.2 ⟨fun hle => ?_, rfl⟩
        rw [hlevel, hwrite, p.logsMore.stack] at hfits
        have hmore := hfits (Nat.le_trans hle p.logsMore.verbosity)
        exact ⟨Nat.le_trans hmore.1 hroom.le, Nat.le_trans hmore.2 hroom.le⟩
      rw [hsame]
      exact .ok u hlogged
    | error interrupt final =>
      rw [(log_error hrun).1]
      exact .cut hcut
  · obtain rfl := p.exact.resolve_left hcut
    obtain rfl := hroom.exact.resolve_left hcut
    rw [log_apply, log_apply, hlevel, hwrite]
    split
    · exact .error .tooDeep hm
    · split
      · exact .error .tooDeep hlogged
      · exact .ok () hlogged

theorem paired_log (hroom : p.Fits room room') (entry : Entry) :
    Paired T p n (log settings room entry) (log settings' room' entry) :=
  fun _ _ hm => ends_log hroom rfl rfl hm (p.log hm entry)

theorem paired_ofExcept {result result' : Except Fault α} (h : Fault.Answers T result result') :
    Paired T p n (ofExcept result) (ofExcept result') := by
  cases h with
  | ok a => exact paired_pure a
  | error hfault => exact paired_throw (.fault hfault)

theorem paired_apply {operator operator' : Origin → Except Fault α}
    (h : ∀ origin, Fault.Answers T (operator origin) (operator' origin)) :
    Paired T p n (apply operator) (apply operator') := by
  intro m m' hm
  have hserial := p.serial_eq hm
  have hleft := p.withSerial hm (m.serial + 1)
  change Ends T p n
    (ofExcept (operator (.computed m.serial)) { m with serial := m.serial + 1 })
    (ofExcept (operator' (.computed m'.serial)) { m' with serial := m'.serial + 1 })
  rw [← hserial]
  exact paired_ofExcept (h _) _ _ hleft

theorem paired_get (name : String) :
    Paired T p n (do ofExcept ((← get).environment.get name))
      (do ofExcept ((← get).environment.get name)) := by
  intro m m' hm
  change Ends T p n (ofExcept (m.environment.get name) m)
    (ofExcept (m'.environment.get name) m')
  rw [← p.get_eq hm name]
  refine paired_ofExcept ?_ m m' hm
  unfold Environment.get
  split
  · exact .ok _
  · exact .error (.undefined name)

/-- Setting a name changes corresponding scopes, or faults on both machines. -/
theorem paired_store (name : String) (value : Value) {next next' : Exec α}
    (h : Paired T p n next next') :
    Paired T p n
      (do
        let environment ← ofExcept ((← get).environment.assign name value)
        modify ({ · with environment })
        next)
      (do
        let environment ← ofExcept ((← get).environment.assign name value)
        modify ({ · with environment })
        next') := by
  intro m m' hm
  rcases p.assign hm name value with ⟨unbound, herror, herror'⟩ | ⟨env, env', hok, hok', hleft⟩
  · change Ends T p n ((ofExcept (m.environment.assign name value) >>= _) m)
      ((ofExcept (m'.environment.assign name value) >>= _) m')
    rw [herror, herror']
    exact .error (.fault (.undefined unbound)) hm
  · change Ends T p n ((ofExcept (m.environment.assign name value) >>= _) m)
      ((ofExcept (m'.environment.assign name value) >>= _) m')
    rw [hok, hok']
    exact h _ _ hleft

/-- A scope that has been opened on both machines is closed on both, however the actions end. -/
theorem Ends.leaving {m m' : Machine} (hm : p.At n m m') {first second : Exec Unit} {l l' : Machine}
    (h : Ends T p (n + 1) (first l) (second l')) :
    Ends T p n (leaving settings m.environment.depth first l)
      (leaving settings' m'.environment.depth second l') := by
  have hleave {l l' : Machine} (hl : p.At (n + 1) l l') :
      p.At n (l.leaveScope settings.verbosity m.environment.depth)
        (l'.leaveScope settings'.verbosity m'.environment.depth) :=
    p.logDepth hm (p.closeTo hm hl) fun depth => .leaveScope (depth + 1)
  unfold Exec.leaving
  generalize first l = result at h ⊢
  generalize second l' = result' at h ⊢
  cases h with
  | ok a hleft => exact .ok a (hleave hleft)
  | error hinterrupt hleft => exact .error hinterrupt (hleave hleft)
  | cut hcut => exact .cut hcut

theorem Paired.inScope (hroom : p.Fits room room') {first second : Exec Unit}
    (h : Paired T p (n + 1) first second) :
    Paired T p n (inScope settings room first) (inScope settings' room' second) := by
  intro m m' hm
  have hopen := p.openScope hm
  have henter : Ends T p (n + 1) (enterScope settings room m) (enterScope settings' room' m') :=
    ends_log hroom rfl rfl hopen (p.logDepth hopen hopen .enterScope)
  change Ends T p n ((enterScope settings room >>= fun _ => leaving settings _ first) m)
    ((enterScope settings' room' >>= fun _ => leaving settings' _ second) m')
  generalize hrun : enterScope settings room m = result at henter
  generalize hrun' : enterScope settings' room' m' = result' at henter
  cases henter with
  | ok _ hentered =>
    rw [bind_of_ok hrun, bind_of_ok hrun']
    exact .leaving hm (h _ _ hentered)
  | error hinterrupt hleft =>
    rw [bind_of_error hrun, bind_of_error hrun']
    obtain rfl := (enterScope_error hrun').1
    rcases p.leftOpen with hcut | hloose
    · exact .cut hcut
    · exact .error hinterrupt (hloose hleft)
  | cut hcut =>
    rw [bind_of_error hrun']
    exact .cut hcut

theorem Paired.form (hroom : p.Fits room room') (name : String) {first second : Nat → Exec Unit}
    (h : ∀ rest rest', p.Fits rest rest' → Paired T p n (first rest) (second rest')) :
    Paired T p n (form settings room name first) (form settings' room' name second) :=
  .call hroom fun rest rest' hrest => (paired_log hrest _).bind fun _ => h rest rest' hrest

theorem Paired.block (hroom : p.Fits room room') {first second : Nat → Exec Unit}
    (h : ∀ rest rest', p.Fits rest rest' → Paired T p (n + 1) (first rest) (second rest')) :
    Paired T p n (block settings room first) (block settings' room' second) :=
  .form hroom _ fun _ _ hrest => .call hrest fun rest rest' hrest =>
    (h rest rest' hrest).inScope hrest

theorem Paired.round {first second : Exec Unit} (h : Paired T p n first second) :
    Paired T p n (round first) (round second) := by
  intro m m' hm
  have hrun := h m m' hm
  unfold Exec.round
  generalize first m = result at hrun ⊢
  generalize second m' = result' at hrun ⊢
  cases hrun with
  | ok a hleft => exact .ok true hleft
  | error hinterrupt hleft =>
    cases hinterrupt with
    | breakLoop => exact .ok false hleft
    | continueLoop => exact .ok true hleft
    | fault hfault => exact .error (.fault hfault) hleft
    | tooDeep => exact .error .tooDeep hleft
    | outOfRounds => exact .error .outOfRounds hleft
  | cut hcut => exact .cut hcut

theorem Paired.loop {condition condition' : Exec Bool} {body body' step step' : Exec Unit}
    (hcondition : Paired T p n condition condition') (hbody : Paired T p n body body')
    (hstep : Paired T p n step step') (rounds : Nat) :
    Paired T p n (loop condition body step rounds) (loop condition' body' step' rounds) := by
  induction rounds with
  | zero => exact paired_throw .outOfRounds
  | succ rounds ih =>
    refine hcondition.bind fun holds => ?_
    cases holds with
    | false => exact paired_pure ()
    | true =>
      refine hbody.round.bind fun goesOn => ?_
      cases goesOn with
      | false => exact paired_pure ()
      | true => exact hstep.bind fun _ => ih

end Exec

/-! ### Programs that are alike -/

open Exec

variable {settings settings' : Settings} {p : Pairing settings settings'} {room room' : Nat}

section Expressions

variable {n : Nat} (hT : ∀ s t, T s t → s.kind.Twin t.kind)

include hT

/-- Expressions that are alike have the same value. -/
theorem Expr.Like.paired_evaluate {e e' : Expr} (h : e.Like T e') (hroom : p.Fits room room') :
    Paired T p n (e.evaluate settings room) (e'.evaluate settings' room') := by
  induction h generalizing room room' with
  | literal value => exact .call hroom fun _ _ _ => paired_pure value
  | grouping _ ih => exact .call hroom fun _ _ hrest => ih hrest
  | @ident name name' h =>
    refine .call hroom fun _ _ _ => ?_
    change Paired T p n (do Exec.ofExcept ((← get).environment.get name.lexeme))
      (do Exec.ofExcept ((← get).environment.get name'.lexeme))
    rw [← h.2]
    exact paired_get _
  | @assign name name' _ _ hname _ ih =>
    refine .call hroom fun _ _ hrest => (ih hrest).bind fun value => ?_
    rw [← hname.2]
    exact paired_store _ _ ((paired_log hrest _).bind fun _ => paired_pure value)
  | unary hop _ ih =>
    exact .call hroom fun _ _ hrest => (ih hrest).bind fun right => paired_apply fun origin =>
      Operator.answers_unary origin hop (hT _ _ hop) right
  | binary _ hop _ ihl ihr =>
    exact .call hroom fun _ _ hrest => (ihl hrest).bind fun left => (ihr hrest).bind fun right =>
      paired_apply fun origin => Operator.answers_binary origin hop (hT _ _ hop) left right
  | logical _ hop _ ihl ihr =>
    refine .call hroom fun _ _ hrest => .call hrest fun _ _ hrest => ?_
    refine (ihl hrest).bind fun value => ?_
    refine (paired_ofExcept (Operator.answers_truth hop value)).bind fun first => ?_
    rw [Operator.goesOn_twin (hT _ _ hop)]
    split
    · exact (ihr hrest).bind fun value =>
        (paired_ofExcept (Operator.answers_truth hop value)).bind fun _ => paired_pure _
    · exact paired_pure _

theorem Expr.Like.paired_condition {e e' : Expr} (h : e.Like T e') (hroom : p.Fits room room') :
    Paired T p n (Exec.condition settings room e) (Exec.condition settings' room' e') := by
  refine .call hroom fun _ _ hrest => ?_
  refine (h.paired_evaluate hT hrest).bind fun value => (paired_log hrest _).bind fun _ => ?_
  cases value with
  | boolean b => exact paired_pure b
  | _ => exact paired_throw (.fault (.condition _))

theorem Expr.paired_optional {o o' : Option Expr} (h : Expr.LikeOptional T o o')
    (hroom : p.Fits room room') :
    Paired T p n (Exec.optional settings room o) (Exec.optional settings' room' o') := by
  cases h with
  | none => exact paired_pure ()
  | some h => exact (h.paired_evaluate hT hroom).discard

end Expressions

mutual

/-- Statements that are alike have corresponding effects. -/
theorem Stmt.paired_execute (hT : ∀ s t, T s t → s.kind.Twin t.kind) (n : Nat) (stmt : Stmt)
    {stmt' : Stmt} (h : stmt.Like T stmt') {room room' : Nat} (hroom : p.Fits room room') :
    Paired T p (n + 1) (stmt.execute settings room) (stmt'.execute settings' room') := by
  cases h with
  | expression h =>
    exact .form hroom _ fun _ _ hrest => (h.paired_evaluate hT hrest).discard
  | print h =>
    exact .form hroom _ fun _ _ hrest => (h.paired_evaluate hT hrest).bind fun value =>
      paired_modify fun hm => p.print hm _
  | @varDecl name name' initial initial' hname h =>
    have hdefine {rest rest' : Nat} (hrest : p.Fits rest rest') (value : Value) :
        Paired T p (n + 1)
          (do
            modify fun machine =>
              { machine with environment := machine.environment.define name.lexeme value }
            Exec.log settings rest (.define name.lexeme value))
          (do
            modify fun machine =>
              { machine with environment := machine.environment.define name'.lexeme value }
            Exec.log settings' rest' (.define name'.lexeme value)) := by
      rw [← hname.2]
      exact (paired_modify fun hm => p.define hm _ _).bind fun _ => paired_log hrest _
    refine .form hroom _ fun _ _ hrest => ?_
    cases h with
    | none => exact (paired_pure Value.nil).bind (hdefine hrest)
    | some h => exact (h.paired_evaluate hT hrest).bind (hdefine hrest)
  | @block body _ h =>
    exact .block hroom fun _ _ hrest => Stmt.paired_executeAll hT _ body h hrest
  | @ifThen _ _ body _ hcondition h =>
    refine .form hroom _ fun _ _ hrest => ?_
    refine (hcondition.paired_condition hT hrest).bind fun taken => ?_
    refine (paired_log hrest _).bind fun _ => ?_
    cases taken with
    | false => exact paired_pure ()
    | true => exact .block hrest fun _ _ hrest => Stmt.paired_executeAll hT _ body h hrest
  | @ifElse _ _ body _ alternative _ hcondition h halternative =>
    refine .form hroom _ fun _ _ hrest => ?_
    refine (hcondition.paired_condition hT hrest).bind fun taken => ?_
    refine (paired_log hrest _).bind fun _ => ?_
    cases taken with
    | false =>
      exact .block hrest fun _ _ hrest => Stmt.paired_executeAll hT _ alternative halternative hrest
    | true => exact .block hrest fun _ _ hrest => Stmt.paired_executeAll hT _ body h hrest
  | @whileLoop _ _ body _ _ _ hcondition h hstep =>
    refine .form hroom _ fun _ _ hrest => ?_
    rw [p.logsMore.rounds]
    exact (hcondition.paired_condition hT hrest).loop
      (.block hrest fun _ _ hrest => Stmt.paired_executeAll hT _ body h hrest)
      (Expr.paired_optional hT hstep hrest) settings.rounds
  | functionDecl h =>
    cases h with
    | mk hname => exact .form hroom _ fun _ _ _ => paired_throw (.fault (.functionDecl hname))
  | returnValue hkeyword =>
    exact .form hroom _ fun _ _ _ => paired_throw (.fault (.returnValue hkeyword))
  | classDecl hname =>
    exact .form hroom _ fun _ _ _ => paired_throw (.fault (.classDecl hname))
  | breakLoop => exact .form hroom _ fun _ _ _ => paired_throw .breakLoop
  | continueLoop => exact .form hroom _ fun _ _ _ => paired_throw .continueLoop
  | empty | error => exact .form hroom _ fun _ _ _ => paired_pure ()

/-- Lists of statements that are alike have corresponding effects. -/
theorem Stmt.paired_executeAll (hT : ∀ s t, T s t → s.kind.Twin t.kind) (n : Nat)
    (body : List Stmt) {body' : List Stmt} (h : Stmt.LikeAll T body body') {room room' : Nat}
    (hroom : p.Fits room room') :
    Paired T p (n + 1) (Stmt.executeAll settings room body)
      (Stmt.executeAll settings' room' body') := by
  cases h with
  | nil => exact paired_pure ()
  | @cons stmt _ rest _ hstmt hrest =>
    exact (Stmt.paired_execute hT _ stmt hstmt hroom).bind fun _ =>
      Stmt.paired_executeAll hT _ rest hrest hroom

end

/-- The same ending, or faults that are alike. -/
inductive Ending.Like (T : Token → Token → Prop) : Ending → Ending → Prop
  | same (ending : Ending) : Like T ending ending
  | fault {cause cause' : Fault} : cause.Like T cause' → Like T (.fault cause) (.fault cause')

theorem Ending.Like.eq {ending ending' : Ending} (h : ending.Like Eq ending') :
    ending' = ending := by
  cases h with
  | same => rfl
  | fault h => rw [h.eq]

/-- Programs that are alike end alike on machines that correspond, and leave such machines, unless the
second run is cut off. -/
theorem Machine.paired_interpret (hT : ∀ s t, T s t → s.kind.Twin t.kind) {n : Nat}
    (hfault : ∀ {m m' cause cause'}, Fault.Like T cause cause' → p.At (n + 1) m m' →
      p.At (n + 1) (m.log settings.verbosity (.fault cause.message))
        (m'.log settings'.verbosity (.fault cause'.message)))
    {program program' : List Stmt} (h : Stmt.LikeAll T program program') {m m' : Machine}
    (hm : p.At (n + 1) m m') :
    p.MayCut ∧ (m'.interpret settings' program').1 = .tooDeep ∨
      (m.interpret settings program).1.Like T (m'.interpret settings' program').1 ∧
        p.At (n + 1) (m.interpret settings program).2 (m'.interpret settings' program').2 := by
  have hends := Stmt.paired_executeAll hT n program h (p.fits_rfl settings.stack.limit) m m' hm
  unfold interpret
  rw [p.logsMore.stack]
  generalize Stmt.executeAll settings settings.stack.limit program m = result at hends ⊢
  generalize Stmt.executeAll settings' settings.stack.limit program' m' = result' at hends ⊢
  cases hends with
  | ok _ hleft => exact .inr ⟨.same _, hleft⟩
  | error hinterrupt hleft =>
    cases hinterrupt with
    | fault hcause => exact .inr ⟨.fault hcause, hfault hcause hleft⟩
    | breakLoop | continueLoop | tooDeep | outOfRounds => exact .inr ⟨.same _, hleft⟩
  | cut hcut => exact .inl ⟨hcut, rfl⟩

end Lox

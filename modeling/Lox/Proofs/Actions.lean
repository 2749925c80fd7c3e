import Lox.Machine

/-!
# Actions in sequence

The second of two actions runs if the first returns, on the machine that the first
leaves. If the first does not return, it decides how both end. An action that is
opened as a call runs if there is room for the call. A log entry is written and
flushed, or there is no room for one of the two; nothing but the log changes in any case.
-/
namespace Lox.Exec

variable {α β : Type} {a : Exec α} {f : α → Exec β} {machine middle final : Machine}

theorem bind_of_ok {x : α} (h : a machine = .ok x middle) : (a >>= f) machine = f x middle := by
  change EStateM.bind a f machine = f x middle
  rw [EStateM.bind, h]

theorem bind_of_error {interrupt : Interrupt} (h : a machine = .error interrupt final) :
    (a >>= f) machine = .error interrupt final := by
  change EStateM.bind a f machine = .error interrupt final
  rw [EStateM.bind, h]

theorem bind_eq_ok {y : β} : (a >>= f) machine = .ok y final ↔
    ∃ x middle, a machine = .ok x middle ∧ f x middle = .ok y final := by
  constructor
  · intro h
    cases ha : a machine with
    | ok x middle =>
      rw [bind_of_ok ha] at h
      exact ⟨x, middle, rfl, h⟩
    | error interrupt middle =>
      rw [bind_of_error ha] at h
      cases h
  · rintro ⟨x, middle, ha, hf⟩
    rw [bind_of_ok ha, hf]

@[simp] theorem call_zero (action : Nat → Exec α) : call 0 action = throw .tooDeep := rfl

@[simp] theorem call_succ (room : Nat) (action : Nat → Exec α) :
    call (room + 1) action = action room := rfl

/-- A call that returns has been opened. -/
theorem call_eq_ok {room : Nat} {action : Nat → Exec α} {x : α} :
    call room action machine = .ok x final ↔
      ∃ rest, room = rest + 1 ∧ action rest machine = .ok x final := by
  cases room with
  | zero => exact ⟨nofun, nofun⟩
  | succ room => simp

/-- An entry is not written where there is no room to write it, and it is written, but the log not
flushed, where there is only room for that. -/
theorem log_apply (settings : Settings) (room : Nat) (entry : Entry) (machine : Machine) :
    log settings room entry machine =
      if entry.level ≤ settings.verbosity ∧ room < settings.stack.toWrite entry then
        .error .tooDeep machine
      else if entry.level ≤ settings.verbosity ∧ room < settings.stack.flush then
        .error .tooDeep (machine.log settings.verbosity entry)
      else .ok () (machine.log settings.verbosity entry) := by
  unfold log demand Machine.log
  by_cases hlevel : entry.level ≤ settings.verbosity
  · by_cases hwrite : settings.stack.toWrite entry ≤ room
    · by_cases hflush : settings.stack.flush ≤ room
      · simp only [hlevel, hwrite, hflush, Nat.not_lt.2, and_false, if_true, if_false]
        rfl
      · have hless : room < settings.stack.flush := Nat.not_le.1 hflush
        simp only [hlevel, hwrite, hflush, hless, Nat.not_lt.2, and_false, and_self, if_true, if_false]
        rfl
    · have hless : room < settings.stack.toWrite entry := Nat.not_le.1 hwrite
      simp only [hlevel, hwrite, hless, and_self, if_true, if_false]
      rfl
  · simp only [hlevel, false_and, if_false]
    rfl

theorem log_cases (settings : Settings) (room : Nat) (entry : Entry) :
    log settings room entry = modify (Machine.log settings.verbosity entry) ∨
      log settings room entry = throw .tooDeep ∨
      log settings room entry =
        (do modify (Machine.log settings.verbosity entry); throw .tooDeep) := by
  by_cases hwrite : entry.level ≤ settings.verbosity ∧ room < settings.stack.toWrite entry
  · exact .inr (.inl (funext fun machine => by rw [log_apply, if_pos hwrite]; rfl))
  · by_cases hflush : entry.level ≤ settings.verbosity ∧ room < settings.stack.flush
    · refine .inr (.inr (funext fun machine => ?_))
      rw [log_apply, if_neg hwrite, if_pos hflush]
      rfl
    · refine .inl (funext fun machine => ?_)
      rw [log_apply, if_neg hwrite, if_neg hflush]
      rfl

section Log

variable {settings : Settings} {room : Nat} {entry : Entry}

theorem log_eq_ok {u : Unit} : log settings room entry machine = .ok u final ↔
    (entry.level ≤ settings.verbosity →
        settings.stack.toWrite entry ≤ room ∧ settings.stack.flush ≤ room) ∧
      final = machine.log settings.verbosity entry := by
  rw [log_apply]
  split
  · next hwrite => exact ⟨nofun, fun h => absurd (h.1 hwrite.1).1 (by omega)⟩
  · split
    · next hflush => exact ⟨nofun, fun h => absurd (h.1 hflush.1).2 (by omega)⟩
    · refine ⟨fun h => ⟨fun hlevel => by omega, ?_⟩, fun h => by rw [h.2]⟩
      cases h
      rfl

theorem log_ok {u : Unit} (h : log settings room entry machine = .ok u final) :
    final = machine.log settings.verbosity entry := (log_eq_ok.1 h).2

theorem log_error {interrupt : Interrupt}
    (h : log settings room entry machine = .error interrupt final) :
    interrupt = .tooDeep ∧ (final = machine ∨ final = machine.log settings.verbosity entry) := by
  rcases log_cases settings room entry with heq | heq | heq <;> rw [heq] at h <;> cases h
  · exact ⟨rfl, .inl rfl⟩
  · exact ⟨rfl, .inr rfl⟩

theorem environment_log (verbosity : Nat) (entry : Entry) (machine : Machine) :
    (machine.log verbosity entry).environment = machine.environment := by
  unfold Machine.log
  split <;> rfl

theorem enterScope_apply (settings : Settings) (room : Nat) (machine : Machine) :
    enterScope settings room machine =
      log settings room (.enterScope (machine.environment.depth + 1)) machine.openScope := rfl

theorem enterScope_ok {u : Unit} (h : enterScope settings room machine = .ok u final) :
    final = machine.openScope.log settings.verbosity
      (.enterScope (machine.environment.depth + 1)) := by
  rw [enterScope_apply] at h
  exact log_ok h

/-- If there is no room to log that a scope is opened, it is open. -/
theorem enterScope_error {interrupt : Interrupt}
    (h : enterScope settings room machine = .error interrupt final) :
    interrupt = .tooDeep ∧ (final = machine.openScope ∨ final =
      machine.openScope.log settings.verbosity
        (.enterScope (machine.environment.depth + 1))) := by
  rw [enterScope_apply] at h
  exact log_error h

theorem environment_of_enterScope_error {interrupt : Interrupt}
    (h : enterScope settings room machine = .error interrupt final) :
    final.environment = machine.environment.push := by
  rcases (enterScope_error h).2 with rfl | rfl
  · rfl
  · exact environment_log _ _ _

/-- Where there is room for the entry about it, if there is one, a scope is opened. -/
theorem enterScope_of_room
    (h : settings.verbosity < 2 ∨ max settings.stack.write settings.stack.flush ≤ room) :
    enterScope settings room machine = .ok () (machine.openScope.log settings.verbosity
      (.enterScope (machine.environment.depth + 1))) := by
  refine log_eq_ok.2 ⟨fun hlevel => ?_, rfl⟩
  have hroom := h.resolve_left (Nat.not_lt.2 hlevel)
  exact ⟨Nat.le_trans (Nat.le_max_left _ _) hroom, Nat.le_trans (Nat.le_max_right _ _) hroom⟩

end Log

end Lox.Exec

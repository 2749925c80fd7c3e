import Lox.Proofs.ResolvedProgram

/-!
# Scopes and their history

What a chain of scopes holds follows from what has been done to it. A scope is open from
the action that pushes it until it is popped, and the values written to a name of a scope
are those defined while the scope is the innermost one and those assigned while it is the
innermost one in which the name has been defined. Every scope of the chain holds at every
name the last value written to it. So a name has the last value that was written to it in
the innermost open scope where it has been defined.
-/
namespace Lox

/-- What can be done to a chain of scopes. -/
inductive ScopeAction where
  | push
  | pop
  | define (name : String) (value : Value)
  | assign (name : String) (value : Value)
  | get (name : String)
deriving DecidableEq, Repr

/-- What has been done to a chain of scopes, the latest action first. -/
abbrev History := List ScopeAction

namespace Environment

/-- The chain after an action, and what the action answers. -/
def perform (env : Environment) : ScopeAction → Environment × Except Fault (Option Value)
  | .push => (env.push, .ok none)
  | .pop => (env.pop, .ok none)
  | .define name value => (env.define name value, .ok none)
  | .assign name value =>
    match env.assign name value with
    | .ok after => (after, .ok none)
    | .error fault => (env, .error fault)
  | .get name => (env, (env.get name).map some)

/-- The chain after a history that starts with the outermost scope alone. -/
def after : History → Environment
  | [] => .empty
  | action :: past => ((after past).perform action).1

/-- The names in the scope of a level, counted from the outermost one; none where no scope is. -/
def namesAt (env : Environment) (level : Nat) : Finset String :=
  (env.nameSets.reverse[level]?).getD ∅

end Environment

/-! ### What a history tells -/

namespace History

/-- The scopes that are open, from the innermost outwards. The outermost one has the number 0, and
the others have the number of the action by which they were pushed. -/
def live : History → List Nat
  | [] => [0]
  | .push :: past => (past.length + 1) :: live past
  | .pop :: past =>
    match live past with
    | _ :: next :: outer => next :: outer
    | outermost => outermost
  | _ :: past => live past

/-- The innermost scope. -/
def current (past : History) : Nat := past.live.headD 0

/-- The name has been defined while the scope was the innermost one. -/
def defines : History → Nat → String → Bool
  | [], _, _ => false
  | .define other _ :: past, scope, name =>
    (other == name && current past == scope) || defines past scope name
  | .push :: past, scope, name | .pop :: past, scope, name | .assign .. :: past, scope, name
  | .get _ :: past, scope, name => defines past scope name

/-- The innermost open scope in which the name has been defined. -/
def holder (past : History) (name : String) : Option Nat :=
  past.live.find? fun scope => past.defines scope name

/-- The value that an action writes to a name of a scope if it follows on the history. -/
def written (past : History) (scope : Nat) (name : String) : ScopeAction → Option Value
  | .define other value => if other = name ∧ past.current = scope then some value else none
  | .assign other value =>
    if other = name ∧ past.holder name = some scope then some value else none
  | .push | .pop | .get _ => none

/-- The last value that has been written to a name of a scope. -/
def lastWritten : History → Nat → String → Option Value
  | [], _, _ => none
  | action :: past, scope, name =>
    (written past scope name action).or (lastWritten past scope name)

variable {past : History} {scope : Nat} {name : String}

theorem live_ne_nil (past : History) : past.live ≠ [] := by
  fun_induction live past <;> simp_all

theorem live_eq_cons (past : History) : past.live = past.current :: past.live.tail := by
  unfold current
  cases h : past.live with
  | nil => exact absurd h (live_ne_nil past)
  | cons scope outer => rfl

/-- Scopes are numbered in the order in which they are pushed. -/
theorem live_sorted (past : History) :
    past.live.Pairwise (· > ·) ∧ ∀ scope ∈ past.live, scope ≤ past.length := by
  fun_induction live past with
  | case1 => simp
  | case2 past ih =>
    constructor
    · refine List.pairwise_cons.2 ⟨fun scope hscope => ?_, ih.1⟩
      have := ih.2 scope hscope
      omega
    · simp only [List.mem_cons, List.length_cons]
      rintro scope (rfl | hscope)
      · omega
      · have := ih.2 scope hscope
        omega
  | case3 past first next outer hlive ih =>
    rw [hlive] at ih
    refine ⟨(List.pairwise_cons.1 ih.1).2, fun scope hscope => ?_⟩
    have := ih.2 scope (List.mem_cons_of_mem _ hscope)
    simp only [List.length_cons]
    omega
  | case4 past hlive ih | case5 past action hpush hpop ih =>
    refine ⟨ih.1, fun scope hscope => ?_⟩
    have := ih.2 scope hscope
    simp only [List.length_cons]
    omega

theorem current_le_length (past : History) : past.current ≤ past.length := by
  refine (live_sorted past).2 _ ?_
  rw [live_eq_cons]
  exact List.mem_cons_self

theorem of_holder (h : past.holder name = some scope) :
    scope ∈ past.live ∧ past.defines scope name = true := by
  unfold holder at h
  exact ⟨List.mem_of_find?_eq_some h, by simpa using List.find?_some h⟩

/-- Nothing has been written to a scope that is still to be pushed. -/
theorem lastWritten_of_length_lt (h : past.length < scope) :
    past.lastWritten scope name = none := by
  induction past with
  | nil => rfl
  | cons action past ih =>
    have hlt : past.length < scope := Nat.lt_of_succ_lt h
    rw [lastWritten, ih hlt, Option.or_none]
    cases action with
    | define other value =>
      have hne : ¬(other = name ∧ current past = scope) := by
        have := current_le_length past
        omega
      rw [written, if_neg hne]
    | assign other value =>
      have hne : ¬(other = name ∧ holder past name = some scope) := by
        rintro ⟨-, hholder⟩
        have := (live_sorted past).2 scope (of_holder hholder).1
        omega
      rw [written, if_neg hne]
    | push | pop | get => rfl

/-- A name has been written to exactly in the scopes where it has been defined, for what is assigned
is assigned where the name has been defined. -/
theorem isSome_lastWritten (past : History) (scope : Nat) (name : String) :
    (past.lastWritten scope name).isSome = past.defines scope name := by
  induction past with
  | nil => rfl
  | cons action past ih =>
    rw [lastWritten, Option.isSome_or, ih]
    cases action with
    | define other value =>
      rw [written, defines]
      by_cases h : other = name ∧ current past = scope
      · simp [h]
      · simp [h]
    | assign other value =>
      rw [written, defines]
      by_cases h : other = name ∧ holder past name = some scope
      · rw [(of_holder h.2).2, Bool.or_true]
      · rw [if_neg h, Option.isSome_none, Bool.false_or]
    | push | pop | get => rfl

end History

/-! ### Numbered scopes -/

/-- What is to be found at the names of numbered scopes. -/
abbrev Contents := Nat → String → Option Value

/-- The contents after a name of a scope has been written to. -/
def Contents.write (contents : Contents) (number : Nat) (name : String) (value : Value) :
    Contents :=
  fun other name' =>
    if other = number ∧ name' = name then some value else contents other name'

/-- The scopes hold the contents of the scopes with these numbers. -/
def Contents.HeldBy (contents : Contents) : List Nat → List Scope → Prop :=
  List.Forall₂ fun number scope => ∀ name, scope.get? name = contents number name

namespace Contents.HeldBy

open Environment

variable {contents contents' : Contents} {numbers : List Nat} {number : Nat} {name : String}
  {own scope : Scope} {scopes after : List Scope} {value : Value}

theorem congr (h : contents.HeldBy numbers scopes)
    (heq : ∀ number ∈ numbers, contents' number = contents number) :
    contents'.HeldBy numbers scopes := by
  induction h with
  | nil => exact .nil
  | cons hscope _ ih =>
    obtain ⟨hfirst, hrest⟩ := List.forall_mem_cons.1 heq
    exact .cons (fun name => by rw [hfirst, hscope name]) (ih hrest)

/-- Writing to another scope changes nothing. -/
theorem write_of_notMem (h : contents.HeldBy numbers scopes) (hnot : number ∉ numbers) :
    (contents.write number name value).HeldBy numbers scopes := by
  refine h.congr fun other hother => funext fun name' => if_neg ?_
  rintro ⟨rfl, -⟩
  exact hnot hother

/-- Binding a name in the innermost scope writes to that scope. -/
theorem insert (h : contents.HeldBy (number :: numbers) (own :: scopes))
    (hnot : number ∉ numbers) :
    (contents.write number name value).HeldBy (number :: numbers)
      (own.insert name value :: scopes) := by
  obtain _ | ⟨hown, hscopes⟩ := h
  refine .cons (fun other => ?_) (write_of_notMem hscopes hnot)
  rw [Scope.get?_insert, hown other, write]
  simp

theorem binds_eq (h : ∀ name, scope.get? name = contents number name) (name : String) :
    scope.binds name = (contents number name).isSome := by
  rw [← h name, Bool.eq_iff_iff, Scope.get?_isSome, Scope.mem_nameSet]

/-- Setting a name writes to the first scope in which something is found at the name. -/
theorem assignIn (h : contents.HeldBy numbers scopes) (hnodup : numbers.Nodup)
    (hfind : (numbers.find? fun number => (contents number name).isSome) = some number)
    (value : Value) :
    ∃ after, assignIn name value scopes = some after ∧
      (contents.write number name value).HeldBy numbers after := by
  induction h with
  | nil => cases hfind
  | @cons first scope numbers scopes hscope hscopes ih =>
    obtain ⟨hnot, hnodup⟩ := List.nodup_cons.1 hnodup
    rw [Environment.assignIn, binds_eq hscope]
    by_cases hfound : (contents first name).isSome = true
    · obtain rfl : first = number := by simpa [hfound] using hfind
      exact ⟨_, if_pos hfound, HeldBy.insert (.cons hscope hscopes) hnot⟩
    · have hrest : (numbers.find? fun number => (contents number name).isSome) = some number := by
        simpa [hfound] using hfind
      obtain ⟨after, hafter, hheld⟩ := ih hnodup hrest
      have hne : first ≠ number := by
        rintro rfl
        exact hnot (List.mem_of_find?_eq_some hrest)
      refine ⟨scope :: after, by rw [if_neg hfound, hafter]; rfl, .cons (fun other => ?_) hheld⟩
      rw [hscope other, write, if_neg fun heq => hne heq.1]

/-- A name that is found in no scope is not set. -/
theorem assignIn_eq_none (h : contents.HeldBy numbers scopes)
    (hfind : (numbers.find? fun number => (contents number name).isSome) = none) (value : Value) :
    Environment.assignIn name value scopes = none := by
  induction h with
  | nil => rfl
  | @cons first scope numbers scopes hscope hscopes ih =>
    rw [List.find?_eq_none] at ih hfind
    obtain ⟨hfirst, hrest⟩ := List.forall_mem_cons.1 hfind
    rw [Environment.assignIn, binds_eq hscope, if_neg hfirst, ih hrest, Option.map_none]

/-- A name has the value that is found in the first scope where there is one. -/
theorem findSome?_get? (h : contents.HeldBy numbers scopes) (name : String) :
    (scopes.findSome? fun scope => scope.get? name) =
      (numbers.find? fun number => (contents number name).isSome).bind fun number =>
        contents number name := by
  induction h with
  | nil => rfl
  | @cons number scope numbers scopes hscope _ ih =>
    rw [List.findSome?_cons, List.find?_cons, hscope name]
    cases hvalue : contents number name with
    | some value => simp [hvalue]
    | none => exact ih

end Contents.HeldBy

/-! ### The chain after a history -/

namespace Environment

open History

theorem lastWritten_define (past : History) (name : String) (value : Value) :
    lastWritten (.define name value :: past) =
      Contents.write past.lastWritten past.current name value := by
  funext number other
  rw [lastWritten, written, Contents.write]
  by_cases h : name = other ∧ past.current = number
  · simp [h]
  · rw [if_neg h, Option.none_or, if_neg]
    rintro ⟨rfl, rfl⟩
    exact h ⟨rfl, rfl⟩

theorem lastWritten_assign {past : History} {number : Nat} {name : String}
    (h : past.holder name = some number) (value : Value) :
    lastWritten (.assign name value :: past) =
      Contents.write past.lastWritten number name value := by
  funext other name'
  rw [lastWritten, written, Contents.write]
  by_cases hname : name = name'
  · subst hname
    by_cases hother : number = other
    · simp [h, hother]
    · simp [h, hother, Ne.symm hother]
  · simp [hname, Ne.symm hname]

theorem lastWritten_assign_of_none {past : History} {name : String} (h : past.holder name = none)
    (value : Value) : lastWritten (.assign name value :: past) = past.lastWritten := by
  funext number other
  rw [lastWritten, written, if_neg, Option.none_or]
  rintro ⟨rfl, hsome⟩
  rw [h] at hsome
  cases hsome

theorem holder_eq (past : History) (name : String) :
    past.holder name = past.live.find? fun number => (past.lastWritten number name).isSome := by
  simp only [holder, isSome_lastWritten]

theorem nodup_live (past : History) : past.live.Nodup :=
  (live_sorted past).1.imp fun h => Nat.ne_of_gt h

/-- The innermost scope is not among the others. -/
theorem current_notMem (past : History) : past.current ∉ past.live.tail := by
  have hnodup := nodup_live past
  rw [live_eq_cons] at hnodup
  exact (List.nodup_cons.1 hnodup).1

/-- A name has been defined in an open scope exactly if one of them holds it. -/
theorem exists_holder_iff (past : History) (name : String) :
    (∃ number, past.holder name = some number) ↔
      ∃ number ∈ past.live, past.defines number name = true := by
  rw [← Option.isSome_iff_exists, holder, List.find?_isSome]

/-- Every scope of the chain holds the last values that have been written to it. -/
theorem heldBy_after (past : History) :
    Contents.HeldBy past.lastWritten past.live (after past).scopes := by
  induction past with
  | nil => exact .cons (fun _ => rfl) .nil
  | cons action past ih =>
    cases action with
    | push =>
      refine .cons (fun name => ?_) ih
      exact (lastWritten_of_length_lt (Nat.lt_succ_self past.length)).symm
    | pop =>
      change Contents.HeldBy (lastWritten past) (live (.pop :: past)) (after past).pop.scopes
      rw [live]
      generalize live past = numbers at ih ⊢
      generalize after past = env at ih ⊢
      obtain ⟨own, outer⟩ := env
      obtain _ | ⟨hown, houter⟩ := ih
      cases houter with
      | nil => exact .cons hown .nil
      | cons hnext houter => exact .cons hnext houter
    | define name value =>
      rw [lastWritten_define]
      change Contents.HeldBy _ (live past) _
      rw [live_eq_cons] at ih ⊢
      exact ih.insert (current_notMem past)
    | assign name value =>
      change Contents.HeldBy _ (live past) ((after past).perform (.assign name value)).1.scopes
      have hholder := holder_eq past name
      rw [perform, assign]
      cases hfind : holder past name with
      | none =>
        rw [ih.assignIn_eq_none (hholder.symm.trans hfind), lastWritten_assign_of_none hfind]
        exact ih
      | some number =>
        obtain ⟨scopes, hscopes, hheld⟩ :=
          ih.assignIn (nodup_live past) (hholder.symm.trans hfind) value
        rw [hscopes, lastWritten_assign hfind]
        obtain ⟨own, outer, rfl⟩ : ∃ own outer, scopes = own :: outer := by
          have hlength := length_assignIn hscopes
          cases scopes with
          | nil => cases hlength
          | cons own outer => exact ⟨own, outer, rfl⟩
        exact hheld
    | get name => exact ih

theorem get?_after (past : History) (name : String) :
    (after past).get? name =
      (past.holder name).bind fun number => past.lastWritten number name := by
  rw [holder_eq]
  exact (heldBy_after past).findSome?_get? name

theorem get_eq_ok_iff (env : Environment) (name : String) (value : Value) :
    env.get name = .ok value ↔ env.get? name = some value := by
  unfold get
  cases env.get? name <;> simp

/-- The last of the levels is that of the innermost scope. -/
theorem namesAt_eq {env : Environment} {own : Finset String} {outer : List (Finset String)}
    (h : env.nameSets = own :: outer) (level : Nat) :
    env.namesAt level =
      if level = outer.length then own else (outer.reverse[level]?).getD ∅ := by
  rw [namesAt, h, List.reverse_cons, List.getElem?_append, List.length_reverse]
  by_cases hlt : level < outer.length
  · rw [if_pos hlt, if_neg (by omega)]
  · rw [if_neg hlt]
    by_cases heq : level = outer.length
    · simp [heq]
    · have hout : outer.reverse[level]? = none := by simp; omega
      rw [if_neg heq, hout, List.getElem?_eq_none (by simp; omega)]

/-- Only a definition adds a name, and only to the innermost scope. -/
theorem eq_define_of_mem_namesAt {env : Environment} {action : ScopeAction} {level : Nat}
    {name : String} (h : name ∈ (env.perform action).1.namesAt level)
    (hnot : name ∉ env.namesAt level) :
    (∃ value, action = .define name value) ∧ level = env.depth := by
  obtain ⟨own, outer⟩ := env
  have hsets : nameSets ⟨own, outer⟩ = own.nameSet :: outer.map Scope.nameSet := rfl
  cases action with
  | push =>
    change name ∈ (push ⟨own, outer⟩).namesAt level at h
    rw [namesAt_eq (nameSets_push _)] at h
    by_cases hlevel : level = (nameSets ⟨own, outer⟩).length
    · simp [hlevel] at h
    · rw [if_neg hlevel] at h
      exact absurd h hnot
  | pop =>
    change name ∈ (pop ⟨own, outer⟩).namesAt level at h
    cases outer with
    | nil => exact absurd h hnot
    | cons next outer =>
      change name ∈ (((next :: outer).map Scope.nameSet).reverse[level]?).getD ∅ at h
      rw [namesAt_eq hsets] at hnot
      by_cases hlevel : level = ((next :: outer).map Scope.nameSet).length
      · rw [List.getElem?_eq_none (by simp [hlevel])] at h
        simp at h
      · rw [if_neg hlevel] at hnot
        exact absurd h hnot
  | define other value =>
    change name ∈ (define ⟨own, outer⟩ other value).namesAt level at h
    have hdefine := nameSets_define ⟨own, outer⟩ other value
    rw [hsets] at hdefine
    rw [namesAt_eq hdefine] at h
    rw [namesAt_eq hsets] at hnot
    by_cases hlevel : level = (outer.map Scope.nameSet).length
    · rw [if_pos hlevel] at h hnot
      obtain rfl : name = other := by simpa [hnot] using h
      exact ⟨⟨value, rfl⟩, hlevel.trans (List.length_map _)⟩
    · rw [if_neg hlevel] at h hnot
      exact absurd h hnot
  | assign other value =>
    rw [perform] at h
    cases hassign : assign ⟨own, outer⟩ other value with
    | ok after =>
      rw [hassign, namesAt, nameSets_assign hassign] at h
      exact absurd h hnot
    | error fault =>
      rw [hassign] at h
      exact absurd h hnot
  | get other => exact absurd h hnot

/-- What fails changes nothing. -/
theorem perform_of_error {env : Environment} {action : ScopeAction} {fault : Fault}
    (h : (env.perform action).2 = .error fault) : (env.perform action).1 = env := by
  cases action with
  | assign name value =>
    rw [perform] at h ⊢
    cases hassign : env.assign name value with
    | ok after =>
      rw [hassign] at h
      cases h
    | error fault => rfl
  | get name => rfl
  | push | pop | define => cases h

/-- After every history, a name is found exactly if it has been defined in a scope that is still
open, and it has the last value that has been written to it in the innermost one of these. It can
be set exactly if it can be found. Where one or the other fails, the chain stays as it is. Only a
definition adds a name to a scope, and only to the innermost one. -/
theorem after_realizes (past : History) :
    (∀ name, (∃ value, (after past).get name = .ok value) ↔
        ∃ number ∈ past.live, past.defines number name = true) ∧
      (∀ name value, (after past).get name = .ok value ↔
        ∃ number, past.holder name = some number ∧
          past.lastWritten number name = some value) ∧
      (∀ name value, (∃ fault, (after past).assign name value = .error fault) ↔
        ∃ fault, (after past).get name = .error fault) ∧
      (∀ action fault, ((after past).perform action).2 = .error fault →
        (after (action :: past)).scopes = (after past).scopes) ∧
      ∀ action level name, name ∈ (after (action :: past)).namesAt level →
        name ∉ (after past).namesAt level →
          (∃ value, action = .define name value) ∧ level = (after past).depth := by
  have hget : ∀ name value, (after past).get name = .ok value ↔
      ∃ number, past.holder name = some number ∧ past.lastWritten number name = some value := by
    intro name value
    rw [get_eq_ok_iff, get?_after, Option.bind_eq_some_iff]
  refine ⟨fun name => ?_, hget, fun name value => ?_, fun action fault h => ?_,
    fun action level name h hnot => eq_define_of_mem_namesAt h hnot⟩
  · rw [← exists_holder_iff]
    constructor
    · rintro ⟨value, hvalue⟩
      obtain ⟨number, hholder, -⟩ := (hget name value).1 hvalue
      exact ⟨number, hholder⟩
    · rintro ⟨number, hholder⟩
      -- where the name has been defined, something has been written to it
      have hsome := isSome_lastWritten past number name
      rw [(of_holder hholder).2] at hsome
      obtain ⟨value, hvalue⟩ := Option.isSome_iff_exists.1 hsome
      exact ⟨value, (hget name value).2 ⟨number, hholder, hvalue⟩⟩
  · simp only [assign_eq_error_iff, get_eq_error_iff]
  · exact congrArg scopes (perform_of_error h)

-- What is assigned to the inner `x` is gone when its scope is popped.
example : (after [.pop, .assign "x" (.boolean true), .define "x" .nil, .push,
    .define "x" (.boolean false)]).get "x" = .ok (.boolean false) := rfl

end Environment

end Lox

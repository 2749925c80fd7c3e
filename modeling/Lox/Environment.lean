import Lox.Fault

/-!
# Environments

A scope binds names to values, and an environment is a chain of scopes with the
innermost in front. A name is looked up, and assigned to, in the nearest scope that
binds it; a declaration always goes to the innermost scope.
-/
namespace Lox

/-- Names with their values. A name is bound at most once; the earliest name comes first. -/
structure Scope where
  bindings : List (String × Value)
deriving DecidableEq, Repr

namespace Scope

/-- The scope without names. -/
def empty : Scope := ⟨[]⟩

/-- The value of a name. -/
def get? (scope : Scope) (name : String) : Option Value := scope.bindings.lookup name

/-- The names that a scope binds. -/
def names (scope : Scope) : List String := scope.bindings.map Prod.fst

/-- A scope binds a name. -/
def binds (scope : Scope) (name : String) : Bool := scope.names.contains name

/-- Replaces the binding of a name, or adds one at the end. -/
def insertInto (name : String) (value : Value) : List (String × Value) → List (String × Value)
  | [] => [(name, value)]
  | (other, old) :: rest =>
    if other = name then (other, value) :: rest
    else (other, old) :: insertInto name value rest

/-- Binds a name, in place of an earlier binding. -/
def insert (scope : Scope) (name : String) (value : Value) : Scope :=
  ⟨insertInto name value scope.bindings⟩

@[simp] theorem get?_insert (scope : Scope) (name other : String) (value : Value) :
    (scope.insert name value).get? other =
      if other = name then some value else scope.get? other := by
  obtain ⟨bindings⟩ := scope
  simp only [insert, get?]
  induction bindings with
  | nil =>
    by_cases h : other = name
    · simp [insertInto, h]
    · have hb : (other == name) = false := by simpa using h
      simp [insertInto, List.lookup_cons, hb, h]
  | cons pair rest ih =>
    obtain ⟨key, old⟩ := pair
    by_cases h : other = key
    · subst h
      by_cases hk : other = name <;> simp [insertInto, hk]
    · have hb : (other == key) = false := by simpa using h
      by_cases hk : key = name
      · subst hk
        simp [insertInto, List.lookup_cons, hb, h]
      · simp [insertInto, hk, List.lookup_cons, hb, ih]

end Scope

/-- A chain of scopes: the innermost one, and those around it from the inside outwards. -/
structure Environment where
  own : Scope
  outer : List Scope
deriving DecidableEq, Repr

namespace Environment

/-- A single scope without names. -/
def empty : Environment := ⟨.empty, []⟩

/-- All scopes, from the innermost outwards. -/
def scopes (env : Environment) : List Scope := env.own :: env.outer

/-- The outermost scope. -/
def globals (env : Environment) : Scope := env.outer.getLastD env.own

/-- How many scopes are around the innermost one. -/
def depth (env : Environment) : Nat := env.outer.length

/-- Opens a scope inside the others. -/
def push (env : Environment) : Environment := ⟨.empty, env.scopes⟩

/-- Closes the innermost scope; the outermost one is never closed. -/
def pop (env : Environment) : Environment :=
  match env.outer with
  | [] => env
  | own :: outer => ⟨own, outer⟩

/-- Closes scopes until no more than `depth` scopes are around the innermost one. -/
def closeTo (env : Environment) (depth : Nat) : Environment := Nat.repeat pop (env.depth - depth) env

/-- Binds a name in the innermost scope. -/
def define (env : Environment) (name : String) (value : Value) : Environment :=
  { env with own := env.own.insert name value }

/-- The value of a name in the nearest scope that binds it. -/
def get? (env : Environment) (name : String) : Option Value :=
  env.scopes.findSome? fun scope => scope.get? name

/-- The value of a name, or the fault that no scope binds it. -/
def get (env : Environment) (name : String) : Except Fault Value :=
  match env.get? name with
  | some value => .ok value
  | none => .error (.undefined name)

/-- Sets a name in the first scope of a list that binds it. -/
def assignIn (name : String) (value : Value) : List Scope → Option (List Scope)
  | [] => none
  | scope :: rest =>
    if scope.binds name then some (scope.insert name value :: rest)
    else (assignIn name value rest).map (scope :: ·)

/-- Sets a name in the nearest scope that binds it, or faults if no scope does. -/
def assign (env : Environment) (name : String) (value : Value) : Except Fault Environment :=
  match assignIn name value env.scopes with
  | some (own :: outer) => .ok ⟨own, outer⟩
  | _ => .error (.undefined name)

theorem length_assignIn {name : String} {value : Value} {before after : List Scope}
    (h : assignIn name value before = some after) : after.length = before.length := by
  induction before generalizing after with
  | nil => simp [assignIn] at h
  | cons scope rest ih =>
    by_cases hb : scope.binds name
    · simp only [assignIn, hb, if_true, Option.some.injEq] at h
      subst h
      rfl
    · simp only [assignIn, hb, Bool.false_eq_true, if_false] at h
      obtain ⟨tail, ht, rfl⟩ := Option.map_eq_some_iff.1 h
      simp [ih ht]

@[simp] theorem pop_push (env : Environment) : env.push.pop = env := rfl

@[simp] theorem depth_push (env : Environment) : env.push.depth = env.depth + 1 := rfl

@[simp] theorem depth_pop (env : Environment) : env.pop.depth = env.depth - 1 := by
  obtain ⟨own, _ | ⟨next, outer⟩⟩ := env <;> rfl

theorem closeTo_of_le {env : Environment} {depth : Nat} (h : env.depth ≤ depth) :
    env.closeTo depth = env := by
  rw [closeTo, Nat.sub_eq_zero_of_le h, Nat.repeat]

/-- The scope that is closed last is the one inside the scope that is left open. -/
theorem closeTo_eq_pop {env : Environment} {depth : Nat} (h : depth < env.depth) :
    env.closeTo depth = (env.closeTo (depth + 1)).pop := by
  obtain ⟨more, heq⟩ := Nat.exists_eq_add_of_lt h
  have hless : env.depth - depth = env.depth - (depth + 1) + 1 := by omega
  rw [closeTo, hless, Nat.repeat, closeTo]

theorem depth_closeTo {env : Environment} {depth : Nat} (h : depth ≤ env.depth) :
    (env.closeTo depth).depth = depth := by
  obtain ⟨more, heq⟩ := Nat.exists_eq_add_of_le h
  induction more generalizing depth with
  | zero => rw [closeTo_of_le (by omega), heq, Nat.add_zero]
  | succ more ih =>
    rw [closeTo_eq_pop (by omega), depth_pop, ih (by omega) (by omega), Nat.add_sub_cancel]

@[simp] theorem closeTo_push (env : Environment) : env.push.closeTo env.depth = env := by
  rw [closeTo_eq_pop (by simp), closeTo_of_le (by simp), pop_push]

end Environment

end Lox

import Lox.Proofs.NameSets

/-!
# Resolved programs

A name is bound by the nearest scope that has it, some number of scopes outwards. A
resolved program has these numbers in place of searches: for each name it looks into
one scope. The numbers come from the text of a program and the names that are in
scope where it starts.
-/
namespace Lox

/-- How many scopes outwards a name is bound, if it is. -/
def hops (sets : List (Finset String)) (name : String) : Option Nat :=
  sets.findIdx? (name ∈ ·)

theorem hops_cons_of_mem {own : Finset String} {name : String} (outer : List (Finset String))
    (h : name ∈ own) : hops (own :: outer) name = some 0 := by
  simp [hops, List.findIdx?_cons, h]

theorem hops_cons_of_not_mem {own : Finset String} {name : String} (outer : List (Finset String))
    (h : name ∉ own) : hops (own :: outer) name = (hops outer name).map (· + 1) := by
  simp [hops, List.findIdx?_cons, h]

theorem hops_eq_none_iff {sets : List (Finset String)} {name : String} :
    hops sets name = none ↔ ∀ names ∈ sets, name ∉ names := by
  simp [hops]

namespace Environment

/-- The value of a name in the scope so many steps outwards. -/
def getAt (env : Environment) (hops : Option Nat) (name : String) : Except Fault Value :=
  match hops.bind fun k => env.scopes[k]?.bind fun scope => scope.get? name with
  | some value => .ok value
  | none => .error (.undefined name)

/-- Sets a name in the scope so many steps outwards. -/
def assignAt (env : Environment) (hops : Option Nat) (name : String) (value : Value) :
    Except Fault Environment :=
  match hops with
  | none => .error (.undefined name)
  | some 0 => .ok { env with own := env.own.insert name value }
  | some (k + 1) =>
    .ok { env with outer := env.outer.modify k fun scope => scope.insert name value }

theorem findSome?_get?_eq (scopes : List Scope) (name : String) :
    (scopes.findSome? fun scope => scope.get? name) =
      (hops (scopes.map Scope.nameSet) name).bind fun k =>
        scopes[k]?.bind fun scope => scope.get? name := by
  induction scopes with
  | nil => rfl
  | cons scope rest ih =>
    have hbound := scope.get?_isSome name
    rw [List.findSome?_cons, List.map_cons]
    by_cases h : name ∈ scope.nameSet
    · obtain ⟨value, hvalue⟩ := Option.isSome_iff_exists.1 (hbound.2 h)
      rw [hops_cons_of_mem _ h, hvalue]
      exact hvalue.symm
    · have hnone : scope.get? name = none := by
        rw [← Option.not_isSome_iff_eq_none, hbound]
        exact h
      rw [hops_cons_of_not_mem _ h, hnone, ih]
      cases hops (rest.map Scope.nameSet) name <;> rfl

/-- Walking the chain finds what is in the scope that the names tell. -/
theorem get_eq_getAt (env : Environment) (name : String) :
    env.get name = env.getAt (hops env.nameSets name) name := by
  unfold get get? getAt
  rw [findSome?_get?_eq]
  rfl

theorem assignIn_eq (name : String) (value : Value) (scopes : List Scope) :
    assignIn name value scopes = (hops (scopes.map Scope.nameSet) name).map fun k =>
      scopes.modify k fun scope => scope.insert name value := by
  induction scopes with
  | nil => rfl
  | cons scope rest ih =>
    rw [List.map_cons]
    by_cases h : name ∈ scope.nameSet
    · rw [assignIn, if_pos ((scope.mem_nameSet name).1 h), hops_cons_of_mem _ h]
      rfl
    · rw [assignIn, if_neg (h ∘ (scope.mem_nameSet name).2), hops_cons_of_not_mem _ h, ih]
      cases hops (rest.map Scope.nameSet) name <;> rfl

/-- Walking the chain sets a name in the scope that the names tell. -/
theorem assign_eq_assignAt (env : Environment) (name : String) (value : Value) :
    env.assign name value = env.assignAt (hops env.nameSets name) name value := by
  have hin := assignIn_eq name value env.scopes
  unfold assign assignAt nameSets
  rw [hin]
  cases hops (env.scopes.map Scope.nameSet) name with
  | none => rfl
  | some k => cases k <;> rfl

theorem exists_scope_of_hops {env : Environment} {name : String} {k : Nat}
    (h : hops env.nameSets name = some k) :
    ∃ scope value, env.scopes[k]? = some scope ∧ scope.get? name = some value := by
  obtain ⟨hk, hmem, -⟩ := List.findIdx?_eq_some_iff_getElem.1 h
  have hk' : k < env.scopes.length := by simpa [nameSets] using hk
  have hbound : (env.scopes[k].get? name).isSome := by
    rw [Scope.get?_isSome]
    simpa [nameSets] using hmem
  obtain ⟨value, hvalue⟩ := Option.isSome_iff_exists.1 hbound
  exact ⟨env.scopes[k], value, List.getElem?_eq_getElem hk', hvalue⟩

theorem exists_assignAt (env : Environment) (k : Nat) (name : String) (value : Value) :
    ∃ env', env.assignAt (some k) name value = .ok env' ∧
      env'.scopes = env.scopes.modify k fun scope => scope.insert name value := by
  cases k with
  | zero => exact ⟨_, rfl, rfl⟩
  | succ k => exact ⟨_, rfl, rfl⟩

/-- Looking up a name is a fault exactly if no scope binds the name. -/
theorem get_eq_error_iff {env : Environment} {name : String} {fault : Fault} :
    env.get name = .error fault ↔
      fault = .undefined name ∧ ∀ names ∈ env.nameSets, name ∉ names := by
  rw [get_eq_getAt, ← hops_eq_none_iff]
  cases h : hops env.nameSets name with
  | none =>
    change Except.error _ = _ ↔ _
    rw [Except.error.injEq, eq_comm, and_iff_left rfl]
  | some k =>
    obtain ⟨scope, value, hscope, hvalue⟩ := exists_scope_of_hops h
    simp [getAt, hscope, hvalue]

/-- Setting a name is a fault exactly if no scope binds the name. -/
theorem assign_eq_error_iff {env : Environment} {name : String} {value : Value} {fault : Fault} :
    env.assign name value = .error fault ↔
      fault = .undefined name ∧ ∀ names ∈ env.nameSets, name ∉ names := by
  rw [assign_eq_assignAt, ← hops_eq_none_iff]
  cases hops env.nameSets name with
  | none =>
    change Except.error _ = _ ↔ _
    rw [Except.error.injEq, eq_comm, and_iff_left rfl]
  | some k =>
    obtain ⟨env', henv', -⟩ := env.exists_assignAt k name value
    simp [henv']

end Environment

namespace Resolved

/-- An expression with the scope of each name in place of a search. -/
inductive Expr where
  | literal (value : Value)
  | unary (op : Token) (right : Expr)
  | binary (left : Expr) (op : Token) (right : Expr)
  | logical (left : Expr) (op : Token) (right : Expr)
  | grouping (inner : Expr)
  | ident (name : String) (hops : Option Nat)
  | assign (name : String) (hops : Option Nat) (value : Expr)

/-- A statement with the scope of each name in place of a search. -/
inductive Stmt where
  | expression (e : Expr)
  | print (e : Expr)
  | varDecl (name : String) (initial : Option Expr)
  | block (body : List Stmt)
  | ifThen (condition : Expr) (body : List Stmt)
  | ifElse (condition : Expr) (body alternative : List Stmt)
  | whileLoop (condition : Expr) (body : List Stmt) (step : Option Expr)
  /-- A statement that never looks up a name. -/
  | plain (stmt : Lox.Stmt)

/-- The value of an expression. -/
def Expr.evaluate (settings : Settings) (room : Nat) (e : Expr) : Exec Value :=
  Exec.call room fun room =>
    match e with
    | literal value => return value
    | grouping inner => inner.evaluate settings room
    | ident name hops => do Exec.ofExcept ((← get).environment.getAt hops name)
    | assign name hops value => do
      let value ← value.evaluate settings room
      let environment ← Exec.ofExcept ((← get).environment.assignAt hops name value)
      modify ({ · with environment })
      Exec.log settings room (.assign name value)
      return value
    | unary op right => do
      let right ← right.evaluate settings room
      Exec.apply (Operator.unary · op right)
    | binary left op right => do
      let left ← left.evaluate settings room
      let right ← right.evaluate settings room
      Exec.apply (Operator.binary · op left right)
    | logical left op right => Exec.call room fun room => do
      let first ← Exec.ofExcept (Operator.truth op (← left.evaluate settings room))
      if Operator.goesOn op first then
        let second ← Exec.ofExcept (Operator.truth op (← right.evaluate settings room))
        return .boolean second
      else return .boolean first
termination_by structural e

/-- The truth of a condition. -/
def condition (settings : Settings) (room : Nat) (e : Expr) : Exec Bool :=
  Exec.call room fun room => do
    let value ← e.evaluate settings room
    Exec.log settings room (.condition value)
    match value with
    | .boolean b => return b
    | _ => throw (.fault (.condition value.type))

/-- Evaluates an expression for its effects, if there is one. -/
def optional (settings : Settings) (room : Nat) : Option Expr → Exec Unit
  | none => return
  | some e => discard (e.evaluate settings room)

mutual

/-- Executes a statement. -/
def Stmt.execute (settings : Settings) (room : Nat) : Stmt → Exec Unit
  | .expression e => Exec.form settings room "Expression" fun room =>
    discard (e.evaluate settings room)
  | .print e => Exec.form settings room "Print" fun room => do
    let value ← e.evaluate settings room
    modify (·.print value.text)
  | .varDecl name initial => Exec.form settings room "Var" fun room => do
    let value ← match initial with
      | none => pure .nil
      | some e => e.evaluate settings room
    modify fun machine =>
      { machine with environment := machine.environment.define name value }
    Exec.log settings room (.define name value)
  | .block body => Exec.block settings room fun room => Stmt.executeAll settings room body
  | .ifThen e body => Exec.form settings room "If" fun room => do
    let taken ← condition settings room e
    Exec.log settings room (.branch taken)
    if taken then Exec.block settings room fun room => Stmt.executeAll settings room body
  | .ifElse e body alternative => Exec.form settings room "If" fun room => do
    let taken ← condition settings room e
    Exec.log settings room (.branch taken)
    if taken then Exec.block settings room fun room => Stmt.executeAll settings room body
    else Exec.block settings room fun room => Stmt.executeAll settings room alternative
  | .whileLoop e body step => Exec.form settings room "While" fun room =>
    Exec.loop (condition settings room e)
      (Exec.block settings room fun room => Stmt.executeAll settings room body)
      (optional settings room step) settings.rounds
  | .plain stmt => stmt.execute settings room

/-- Executes statements in order. -/
def Stmt.executeAll (settings : Settings) (room : Nat) : List Stmt → Exec Unit
  | [] => return
  | stmt :: rest => do
    stmt.execute settings room
    Stmt.executeAll settings room rest

end

end Resolved

/-- Resolves the names of an expression that stands where `sets` are in scope. -/
def Expr.resolve (sets : List (Finset String)) : Expr → Resolved.Expr
  | literal value => .literal value
  | unary op right => .unary op (right.resolve sets)
  | binary left op right => .binary (left.resolve sets) op (right.resolve sets)
  | logical left op right => .logical (left.resolve sets) op (right.resolve sets)
  | grouping inner => .grouping (inner.resolve sets)
  | ident name => .ident name.lexeme (hops sets name.lexeme)
  | assign name value => .assign name.lexeme (hops sets name.lexeme) (value.resolve sets)

mutual

/-- Resolves the names of a statement that stands where `sets` are in scope. -/
def Stmt.resolve (sets : List (Finset String)) : Stmt → Resolved.Stmt
  | .expression e => .expression (e.resolve sets)
  | .print e => .print (e.resolve sets)
  | .varDecl name initial => .varDecl name.lexeme (initial.map (Expr.resolve sets))
  | .block body => .block (Stmt.resolveAll (∅ :: sets) body)
  | .ifThen condition body => .ifThen (condition.resolve sets) (Stmt.resolveAll (∅ :: sets) body)
  | .ifElse condition body alternative =>
    .ifElse (condition.resolve sets) (Stmt.resolveAll (∅ :: sets) body)
      (Stmt.resolveAll (∅ :: sets) alternative)
  | .whileLoop condition body step =>
    .whileLoop (condition.resolve sets) (Stmt.resolveAll (∅ :: sets) body)
      (step.map (Expr.resolve sets))
  | stmt => .plain stmt

/-- Resolves the names of statements, the first of which stands where `sets` are in scope. -/
def Stmt.resolveAll (sets : List (Finset String)) : List Stmt → List Resolved.Stmt
  | [] => []
  | stmt :: rest => stmt.resolve sets :: Stmt.resolveAll (declare stmt.declared sets) rest

end

end Lox

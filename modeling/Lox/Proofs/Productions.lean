import Mathlib.Computability.Language
import Lox.Proofs.Grammar

/-!
# The grammar as productions

The grammar without bounds: blocks and expressions may be nested to any depth, a function may
have any number of parameters, and any operation may stand before `=`. Every category of phrases
has one production, whose right side is a pattern of token classes and of categories; a word of
token classes is a phrase if the pattern yields it. With which classes the words of a pattern
may begin, and whether it yields the empty word, is computed from tables for the categories.
-/
namespace Lox.Grammar

/-- The categories of phrases. For some it matters whether a loop of the function body at hand is
around the phrase, which `inLoop` tells. -/
inductive Category where
  | program
  | declaration (inLoop : Bool)
  | classDecl | funDecl | function | parameters | varDecl
  | statement (inLoop : Bool)
  | printStmt
  | ifStmt (inLoop : Bool)
  | whileStmt | forStmt | returnStmt | breakStmt | continueStmt
  | block (inLoop : Bool)
  | exprStmt
  | expr (symbol : Symbol)
deriving DecidableEq, Repr

/-- The right side of a production. -/
inductive Pattern where
  | nothing
  /-- One token of one of the classes. -/
  | token (kinds : List Kind)
  | phrase (category : Category)
  | seq (first second : Pattern)
  | either (first second : Pattern)
  | many (item : Pattern)
deriving DecidableEq, Repr

namespace Pattern

instance : Coe Kind Pattern := ⟨fun kind => token [kind]⟩

instance : Coe Category Pattern := ⟨phrase⟩

/-- Several patterns one after another. -/
def inOrder : List Pattern → Pattern
  | [] => nothing
  | [p] => p
  | p :: q :: rest => seq p (inOrder (q :: rest))

/-- One of several patterns. -/
def oneOf : List Pattern → Pattern
  | [] => token []
  | [p] => p
  | p :: q :: rest => either p (oneOf (q :: rest))

/-- A pattern that may be left out. -/
def optional (p : Pattern) : Pattern := either p nothing

/-- What comes behind the first part of a sequence. -/
def rest : Pattern → Pattern
  | seq _ q => q
  | _ => nothing

end Pattern

open Pattern in
/-- The forms of statements. A jump is one of them only where a loop is open. -/
def statementForms : (inLoop : Bool) → List Pattern
  | false =>
    [Category.printStmt, Category.ifStmt false, Category.whileStmt, Category.forStmt,
      Category.returnStmt, Category.block false, Kind.semicolon, Category.exprStmt]
  | true =>
    [Category.printStmt, Category.ifStmt true, Category.whileStmt, Category.forStmt,
      Category.returnStmt, Category.breakStmt, Category.continueStmt, Category.block true,
      Kind.semicolon, Category.exprStmt]

open Pattern in
/-- The right side of the production for a category. -/
def production : Category → Pattern
  | .program => many (Category.declaration false)
  | .declaration inLoop =>
    oneOf [Category.classDecl, Category.funDecl, Category.varDecl, Category.statement inLoop]
  | .classDecl =>
    inOrder [Kind.kwClass, Kind.identifier, optional (inOrder [Kind.less, Kind.identifier]),
      Kind.leftBrace, many Category.function, Kind.rightBrace]
  | .funDecl => inOrder [Kind.kwFun, Category.function]
  | .function =>
    inOrder [Kind.identifier, Kind.leftParen, optional Category.parameters, Kind.rightParen,
      Category.block false]
  | .parameters => inOrder [Kind.identifier, many (inOrder [Kind.comma, Kind.identifier])]
  | .varDecl =>
    inOrder [Kind.kwVar, Kind.identifier,
      optional (inOrder [Kind.equal, Category.expr .expression]), Kind.semicolon]
  | .statement inLoop => oneOf (statementForms inLoop)
  | .printStmt => inOrder [Kind.kwPrint, Category.expr .expression, Kind.semicolon]
  | .ifStmt inLoop =>
    inOrder [Kind.kwIf, Kind.leftParen, Category.expr .expression, Kind.rightParen,
      Category.block inLoop, optional (inOrder [Kind.kwElse, Category.block inLoop])]
  | .whileStmt =>
    inOrder [Kind.kwWhile, Kind.leftParen, Category.expr .expression, Kind.rightParen,
      Category.block true]
  | .forStmt =>
    inOrder [Kind.kwFor, Kind.leftParen,
      oneOf [Category.varDecl, Category.exprStmt, Kind.semicolon],
      optional (Category.expr .expression), Kind.semicolon,
      optional (Category.expr .expression), Kind.rightParen, Category.block true]
  | .returnStmt => inOrder [Kind.kwReturn, optional (Category.expr .expression), Kind.semicolon]
  | .breakStmt => inOrder [Kind.kwBreak, Kind.semicolon]
  | .continueStmt => inOrder [Kind.kwContinue, Kind.semicolon]
  | .block inLoop =>
    inOrder [Kind.leftBrace, many (Category.declaration inLoop), Kind.rightBrace]
  | .exprStmt => inOrder [Category.expr .expression, Kind.semicolon]
  | .expr .expression => Category.expr .assignment
  | .expr .assignment =>
    inOrder [Category.expr (.tier .logicOr),
      optional (inOrder [Kind.equal, Category.expr .assignment])]
  | .expr (.tier t) =>
    inOrder [Category.expr t.operand,
      many (inOrder [token t.operators, Category.expr t.operand])]
  | .expr .unary =>
    oneOf [inOrder [token [.bang, .minus], Category.expr .unary], Category.expr .primary]
  | .expr .primary =>
    oneOf [Kind.number, Kind.string, Kind.kwTrue, Kind.kwFalse, Kind.kwNil,
      inOrder [Kind.leftParen, Category.expr .expression, Kind.rightParen], Kind.identifier]

namespace Pattern

/-- The pattern yields the word. -/
inductive Yields : Pattern → List Kind → Prop
  | nothing : Yields nothing []
  | token {kinds kind} : kind ∈ kinds → Yields (token kinds) [kind]
  | phrase {category word} : Yields (production category) word → Yields (phrase category) word
  | seq {p q u v} : Yields p u → Yields q v → Yields (seq p q) (u ++ v)
  | left {p q word} : Yields p word → Yields (either p q) word
  | right {p q word} : Yields q word → Yields (either p q) word
  | none {p} : Yields (many p) []
  | more {p u v} : Yields p u → Yields (many p) v → Yields (many p) (u ++ v)

/-- The words that a pattern yields. -/
def language (p : Pattern) : Language Kind := {word | p.Yields word}

end Pattern

/-- The sentences of the grammar. -/
def sentences : Language Kind := (Pattern.phrase .program).language

namespace Pattern

variable {p q : Pattern} {ps : List Pattern} {kind : Kind} {kinds word : List Kind}

/-! ### Languages of patterns -/

theorem mem_language_token : word ∈ (token kinds).language ↔ ∃ kind ∈ kinds, word = [kind] := by
  constructor
  · intro h
    cases h with
    | token hmem => exact ⟨_, hmem, rfl⟩
  · rintro ⟨kind, hmem, rfl⟩
    exact .token hmem

theorem language_nothing : nothing.language = 1 := by
  ext word
  rw [Language.mem_one]
  constructor
  · intro h
    cases h
    rfl
  · rintro rfl
    exact .nothing

theorem language_phrase (category : Category) :
    (phrase category).language = (production category).language := by
  ext word
  constructor
  · intro h
    cases h
    assumption
  · exact .phrase

theorem language_seq : (seq p q).language = p.language * q.language := by
  ext word
  rw [Language.mem_mul]
  constructor
  · intro h
    cases h with
    | seq hp hq => exact ⟨_, hp, _, hq, rfl⟩
  · rintro ⟨u, hp, v, hq, rfl⟩
    exact .seq hp hq

theorem language_either : (either p q).language = p.language + q.language := by
  ext word
  rw [Language.mem_add]
  constructor
  · intro h
    cases h with
    | left h => exact .inl h
    | right h => exact .inr h
  · rintro (h | h)
    · exact .left h
    · exact .right h

/-- Many items are none, or one and then many. -/
theorem language_many : (many p).language = p.language * (many p).language + 1 := by
  ext word
  rw [Language.mem_add, Language.mem_mul, Language.mem_one]
  constructor
  · intro h
    cases h with
    | none => exact .inr rfl
    | more hp hmany => exact .inl ⟨_, hp, _, hmany, rfl⟩
  · rintro (⟨u, hp, v, hmany, rfl⟩ | rfl)
    · exact .more hp hmany
    · exact .none

theorem yields_oneOf : (oneOf ps).Yields word ↔ ∃ p ∈ ps, p.Yields word := by
  induction ps using oneOf.induct with
  | case1 => simpa [oneOf] using fun h => nomatch h
  | case2 p => simp [oneOf]
  | case3 p q rest ih =>
    rw [oneOf, List.exists_mem_cons_iff, ← ih]
    exact Set.ext_iff.1 language_either word

end Pattern

/-! ### First tokens -/

/-- The classes with which statements begin. -/
def statementFirsts (inLoop : Bool) : List Kind :=
  [.kwPrint, .kwIf, .kwWhile, .kwFor, .kwReturn, .leftBrace, .semicolon] ++ starters ++
    if inLoop then [.kwBreak, .kwContinue] else []

/-- The classes with which the phrases of a category begin. -/
def Category.firsts : Category → List Kind
  | program => [.kwClass, .kwFun, .kwVar] ++ statementFirsts false
  | declaration inLoop => [.kwClass, .kwFun, .kwVar] ++ statementFirsts inLoop
  | statement inLoop => statementFirsts inLoop
  | classDecl => [.kwClass]
  | funDecl => [.kwFun]
  | function | parameters => [.identifier]
  | varDecl => [.kwVar]
  | printStmt => [.kwPrint]
  | ifStmt _ => [.kwIf]
  | whileStmt => [.kwWhile]
  | forStmt => [.kwFor]
  | returnStmt => [.kwReturn]
  | breakStmt => [.kwBreak]
  | continueStmt => [.kwContinue]
  | block _ => [.leftBrace]
  | expr .primary => starters.filter fun kind => kind ≠ .bang ∧ kind ≠ .minus
  | exprStmt | expr _ => starters

/-- Only a program may be empty. -/
def Category.nullable (category : Category) : Bool := category = program

namespace Pattern

/-- The pattern may yield the empty word. -/
def nullable : Pattern → Bool
  | nothing | many _ => true
  | token _ => false
  | phrase category => category.nullable
  | seq p q => p.nullable && q.nullable
  | either p q => p.nullable || q.nullable

/-- The classes with which the words of a pattern may begin. -/
def firsts : Pattern → List Kind
  | nothing => []
  | token kinds => kinds
  | phrase category => category.firsts
  | seq p q => p.firsts ++ if p.nullable then q.firsts else []
  | either p q => p.firsts ++ q.firsts
  | many p => p.firsts

end Pattern

/-- The tables agree with the productions. -/
theorem firsts_production (category : Category) :
    ((production category).nullable = true → category.nullable = true) ∧
      ∀ kind ∈ (production category).firsts, kind ∈ category.firsts := by
  cases category with
  | declaration inLoop | statement inLoop | ifStmt inLoop | block inLoop =>
    cases inLoop <;> decide
  | expr symbol =>
    cases symbol with
    | tier t => cases t <;> decide
    | _ => decide
  | _ => decide

namespace Pattern

variable {p : Pattern} {kind : Kind} {word : List Kind}

theorem Yields.nullable (h : p.Yields []) : p.nullable = true := by
  generalize hword : ([] : List Kind) = word at h
  induction h with
  | nothing | none | more => rfl
  | token => cases hword
  | @phrase category _ _ ih => exact (firsts_production category).1 (ih hword)
  | seq _ _ ihp ihq =>
    obtain ⟨hu, hv⟩ := List.append_eq_nil_iff.1 hword.symm
    exact Bool.and_eq_true_iff.2 ⟨ihp hu.symm, ihq hv.symm⟩
  | left _ ih => exact Bool.or_eq_true_iff.2 (.inl (ih hword))
  | right _ ih => exact Bool.or_eq_true_iff.2 (.inr (ih hword))

theorem Yields.first_mem (h : p.Yields (kind :: word)) : kind ∈ p.firsts := by
  generalize hall : kind :: word = all at h
  induction h generalizing word with
  | nothing | none => cases hall
  | token hmem =>
    cases hall
    exact hmem
  | @phrase category _ _ ih => exact (firsts_production category).2 kind (ih hall)
  | @seq p q u v hp _ ihp ihq =>
    rw [firsts, List.mem_append]
    cases u with
    | nil => exact .inr (by simpa [hp.nullable] using ihq hall)
    | cons k rest =>
      cases hall
      exact .inl (ihp rfl)
  | left _ ih => exact List.mem_append_left _ (ih hall)
  | right _ ih => exact List.mem_append_right _ (ih hall)
  | @more p u v _ _ ihp ihmany =>
    cases u with
    | nil => exact ihmany hall
    | cons k rest =>
      cases hall
      exact ihp rfl

/-! ### No pattern is barren -/

/-- A word that a pattern yields, looked for at most `depth` levels down. -/
def sample : (depth : Nat) → Pattern → Option (List Kind)
  | 0, _ => none
  | _ + 1, nothing | _ + 1, many _ => some []
  | _ + 1, token kinds => kinds.head?.map fun kind => [kind]
  | depth + 1, phrase category => sample depth (production category)
  | depth + 1, seq p q => return (← sample depth p) ++ (← sample depth q)
  | depth + 1, either p q => (sample depth q).or (sample depth p)

theorem yields_of_sample {depth : Nat} (h : sample depth p = some word) : p.Yields word := by
  induction depth generalizing p word with
  | zero => cases h
  | succ depth ih =>
    cases p with
    | nothing =>
      cases h
      exact .nothing
    | many p =>
      cases h
      exact .none
    | token kinds =>
      obtain ⟨kind, hkind, rfl⟩ := Option.map_eq_some_iff.1 h
      exact .token (List.mem_of_mem_head? hkind)
    | phrase category => exact .phrase (ih h)
    | seq p q =>
      obtain ⟨u, hu, h⟩ := Option.bind_eq_some_iff.1 h
      obtain ⟨v, hv, h⟩ := Option.bind_eq_some_iff.1 h
      cases h
      exact .seq (ih hu) (ih hv)
    | either p q =>
      rcases Option.or_eq_some_iff.1 h with hq | ⟨-, hp⟩
      · exact .right (ih hq)
      · exact .left (ih hp)

theorem exists_yields_phrase (category : Category) : ∃ word, (phrase category).Yields word := by
  suffices h : ((phrase category).sample 30).isSome = true by
    obtain ⟨word, hword⟩ := Option.isSome_iff_exists.1 h
    exact ⟨word, yields_of_sample hword⟩
  cases category with
  | declaration inLoop | statement inLoop | ifStmt inLoop | block inLoop =>
    cases inLoop <;> decide
  | expr symbol =>
    cases symbol with
    | tier t => cases t <;> decide
    | _ => decide
  | _ => decide

/-- Some word comes from the pattern, since some word comes from every category. -/
def isFertile : Pattern → Bool
  | nothing | phrase _ | many _ => true
  | token kinds => !kinds.isEmpty
  | seq p q => p.isFertile && q.isFertile
  | either p q => p.isFertile || q.isFertile

theorem exists_yields (h : p.isFertile = true) : ∃ word, p.Yields word := by
  induction p with
  | nothing => exact ⟨[], .nothing⟩
  | many => exact ⟨[], .none⟩
  | phrase category => exact exists_yields_phrase category
  | token kinds =>
    cases kinds with
    | nil => cases h
    | cons kind rest => exact ⟨[kind], .token (by simp)⟩
  | seq p q ihp ihq =>
    obtain ⟨hp, hq⟩ := Bool.and_eq_true_iff.1 h
    obtain ⟨u, hu⟩ := ihp hp
    obtain ⟨v, hv⟩ := ihq hq
    exact ⟨u ++ v, .seq hu hv⟩
  | either p q ihp ihq =>
    rcases Bool.or_eq_true_iff.1 h with h | h
    · obtain ⟨u, hu⟩ := ihp h
      exact ⟨u, .left hu⟩
    · obtain ⟨u, hu⟩ := ihq h
      exact ⟨u, .right hu⟩

end Pattern

end Lox.Grammar

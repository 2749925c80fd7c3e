import Lox.Proofs.DecidedProductions
import Lox.Proofs.Reporting

/-!
# The first fault is at the first impossible token

Reading without recovery stops at the first failure, so the cursor tells where it is. With and
without recovery the same is read, or the same fault is reported first. Since every rule decides
its production, the tokens before the first fault begin a sentence of the grammar, and with the
token at fault they do not, unless the fault is about a bound that the grammar does not have.
-/
namespace Lox

open Grammar

namespace Rule

variable {α β : Type}

/-- A block behind its opening brace, read without recovery. -/
def strictBlock : (room : Nat) → Rule (List Stmt)
  | 0 => tooDeep
  | room + 1 => nested do
    let body ← many .rightBrace (declaration (expression room) (strictBlock room))
    let _ ← expect .rightBrace "'\x7d' after block"
    return body

/-- A program, read without recovery. -/
def strictProgram : Rule (List Stmt) :=
  many .eof (declaration (expression maxDepth) (strictBlock maxDepth))

/-! ### The same first fault -/

/-- The two rules read the same, or report the same fault first. -/
def Alike (rule strict : Rule α) : Prop :=
  ∀ c, (∃ a d, rule.Reads c a d ∧ strict.Reads c a d) ∨
    ∃ fault, (rule c).reports.head? = some fault ∧ (strict c).reports.head? = some fault

theorem Loud.alike {rule : Rule α} (h : Loud rule) : Alike rule rule := by
  intro c
  cases hreports : (rule c).reports with
  | nil =>
    obtain ⟨a, d, hread⟩ := h.reads hreports
    exact .inl ⟨a, d, hread, hread⟩
  | cons fault rest => exact .inr ⟨fault, rfl, rfl⟩

theorem head?_reports_bind {rule : Rule α} {next : α → Rule β} {c : Cursor} {fault : SyntaxFault}
    (h : (rule c).reports.head? = some fault) :
    ((rule >>= next) c).reports.head? = some fault := by
  rcases hrule : rule c with ⟨other | a, d, reports⟩
  · rw [hrule] at h
    rw [bind_of_error hrule]
    exact h
  · rw [hrule] at h
    rw [bind_of_ok hrule]
    rw [List.head?_append, h]
    rfl

theorem Alike.bind {rule strict : Rule α} {next next' : α → Rule β} (hr : Alike rule strict)
    (hn : ∀ a, Alike (next a) (next' a)) : Alike (rule >>= next) (strict >>= next') := by
  intro c
  rcases hr c with ⟨a, d, hread, hread'⟩ | ⟨fault, hfirst, hfirst'⟩
  · rcases hn a d with ⟨b, e, hnext, hnext'⟩ | ⟨fault, hfirst, hfirst'⟩
    · exact .inl ⟨b, e, reads_bind.2 ⟨a, d, hread, hnext⟩, reads_bind.2 ⟨a, d, hread', hnext'⟩⟩
    · refine .inr ⟨fault, ?_, ?_⟩
      · rw [bind_of_ok hread]
        exact hfirst
      · rw [bind_of_ok hread']
        exact hfirst'
  · exact .inr ⟨fault, head?_reports_bind hfirst, head?_reports_bind hfirst'⟩

theorem Alike.map {rule strict : Rule α} (h : Alike rule strict) (f : α → β) :
    Alike (rule >>= fun a => pure (f a)) (strict >>= fun a => pure (f a)) :=
  h.bind fun _ => Loud.alike loud_pure

/-- Recovery comes after the first report. -/
theorem Alike.recover {rule strict : Rule α} (h : Alike rule strict) (instead : SyntaxFault → α) :
    Alike (recover rule instead) strict := by
  intro c
  rcases h c with ⟨a, d, hread, hread'⟩ | ⟨fault, hfirst, hfirst'⟩
  · refine .inl ⟨a, d, ?_, hread'⟩
    simp only [Reads, Rule.recover] at hread ⊢
    rw [hread]
  · refine .inr ⟨fault, ?_, hfirst'⟩
    rw [← hfirst, Rule.recover]
    split <;> simp_all

theorem Alike.many {item strict : Rule α} (h : Alike item strict) (stop : Kind) :
    Alike (many stop item) (many stop strict) := by
  refine (Loud.alike loud_ahead).bind fun bound => ?_
  induction bound with
  | nil => exact Loud.alike loud_pure
  | cons _ more ih =>
    refine (Loud.alike loud_peek).bind fun token => ?_
    dsimp only
    split
    · exact Loud.alike loud_pure
    · exact h.bind fun a => ih.map _

/-- What is opened before a rule is closed after it if the rule has a result. -/
theorem Alike.bracket {rule strict : Rule α} (h : Alike rule strict)
    (before after : Cursor → Cursor) :
    Alike (update before >>= fun _ => rule >>= fun a => update after >>= fun _ => pure a)
      (update before >>= fun _ => strict >>= fun a => update after >>= fun _ => pure a) :=
  (Loud.alike loud_update).bind fun _ => h.bind fun _ =>
    Loud.alike (loud_bind loud_update fun _ => loud_pure)

theorem Alike.outsideLoops {rule strict : Rule α} (h : Alike rule strict) :
    Alike (outsideLoops rule) (outsideLoops strict) :=
  (Loud.alike loud_loops).bind fun _ => h.bracket _ _

section Statements

variable {expression : Rule Expr} {block strict : Rule (List Stmt)}

theorem Alike.braced (h : Alike block strict) (what : String) :
    Alike (braced block what) (braced strict what) :=
  (Loud.alike loud_expect).bind fun _ => h

theorem Alike.function (h : Alike block strict) (word : String) :
    Alike (function block word) (function strict word) :=
  (Loud.alike loud_expect).bind fun _ => (Loud.alike loud_expect).bind fun _ =>
    loud_parameters.alike.bind fun _ => (Loud.alike loud_expect).bind fun _ =>
    (Loud.alike loud_expect).bind fun _ => h.outsideLoops.map _

theorem Alike.classDecl (h : Alike block strict) : Alike (classDecl block) (classDecl strict) :=
  (Loud.alike loud_expect).bind fun _ => loud_superclass.alike.bind fun _ =>
    (Loud.alike loud_expect).bind fun _ => ((h.function _).many _).bind fun _ =>
    Loud.alike (loud_bind loud_expect fun _ => loud_pure)

theorem Alike.ifStmt (he : Loud expression) (h : Alike block strict) :
    Alike (ifStmt expression block) (ifStmt expression strict) := by
  refine (Loud.alike loud_expect).bind fun _ => he.alike.bind fun _ =>
    (Loud.alike loud_expect).bind fun _ => (h.braced _).bind fun _ =>
    (Loud.alike loud_accept).bind fun o => ?_
  cases o with
  | none => exact Loud.alike loud_pure
  | some other => exact (h.braced _).map _

theorem Alike.whileStmt (he : Loud expression) (h : Alike block strict) :
    Alike (whileStmt expression block) (whileStmt expression strict) :=
  (Loud.alike loud_expect).bind fun _ => he.alike.bind fun _ =>
    (Loud.alike loud_expect).bind fun _ => ((h.braced _).bracket _ _).map _

theorem Alike.forStmt (he : Loud expression) (h : Alike block strict) :
    Alike (forStmt expression block) (forStmt expression strict) :=
  (Loud.alike loud_expect).bind fun _ => (loud_forInitial he).alike.bind fun _ =>
    (loud_optional he).alike.bind fun _ => (Loud.alike loud_expect).bind fun _ =>
    (loud_optional he).alike.bind fun _ => (Loud.alike loud_expect).bind fun _ =>
    ((h.braced _).bracket _ _).map _

theorem Alike.statement (he : Loud expression) (h : Alike block strict) :
    Alike (statement expression block) (statement expression strict) := by
  refine (Loud.alike loud_peek).bind fun token => ?_
  cases hkind : token.kind
  case kwIf => exact (Loud.alike loud_advance).bind fun _ => h.ifStmt he
  case kwWhile => exact (Loud.alike loud_advance).bind fun _ => h.whileStmt he
  case kwFor => exact (Loud.alike loud_advance).bind fun _ => h.forStmt he
  case leftBrace => exact (Loud.alike loud_advance).bind fun _ => h.map _
  case kwPrint => exact Loud.alike (loud_bind loud_advance fun _ => loud_printStmt he)
  case kwReturn => exact Loud.alike (loud_bind loud_advance fun _ => loud_returnStmt he token)
  case kwBreak | kwContinue =>
    exact Loud.alike (loud_bind loud_advance fun _ => loud_jumpStmt token _ _)
  case semicolon => exact Loud.alike (loud_bind loud_advance fun _ => loud_pure)
  all_goals exact (loud_expressionStmt he).alike

theorem Alike.declaration (he : Loud expression) (h : Alike block strict) :
    Alike (declaration expression block) (declaration expression strict) := by
  refine (Loud.alike loud_peek).bind fun token => ?_
  cases hkind : token.kind
  case kwClass => exact (Loud.alike loud_advance).bind fun _ => h.classDecl
  case kwFun => exact (Loud.alike loud_advance).bind fun _ => (h.function _).map _
  case kwVar => exact Loud.alike (loud_bind loud_advance fun _ => loud_varDecl he)
  all_goals exact h.statement he

end Statements

theorem alike_block (room : Nat) : Alike (block room) (strictBlock room) := by
  induction room with
  | zero => exact loud_tooDeep.alike
  | succ room ih =>
    have hbody := ((ih.declaration (loud_operand_expression room).2).recover
      fun fault => Stmt.error fault.token fault.error.message).many .rightBrace
    refine (hbody.bind fun body => ?_).bracket _ _
    exact Loud.alike (loud_bind loud_expect fun _ => loud_pure)

theorem alike_program : Alike program strictProgram :=
  (((alike_block maxDepth).declaration (loud_operand_expression maxDepth).2).recover _).many _

/-! ### Reading without recovery decides the grammar -/

theorem decides_strictBlock (room : Nat) : ∀ looping,
    Decides (strictBlock room) looping (production (.block looping)).rest [] := by
  induction room with
  | zero => exact fun looping => decides_tooDeep
  | succ room ih =>
    intro looping
    have hitem : Decides (declaration (expression room) (strictBlock room)) looping
        (.phrase (.declaration looping)) [.kwElse] :=
      (decides_operand_expression room).2.declaration ih
    refine Decides.nested ?_
    refine (hitem.many rfl (by cases looping <;> decide) (by cases looping <;> decide)).bind
      (fun body => ?_) (by decide)
    exact (decides_expect (by decide)).map _

theorem decides_strictProgram :
    Decides strictProgram false (.phrase .program) (Kind.allBut [.eof, .eof]) :=
  Decides.phrase <| ((decides_operand_expression maxDepth).2.declaration
    (decides_strictBlock maxDepth)).many rfl (by decide) (by decide)

end Rule

namespace Reading

/-- The fault at which reading without recovery stops, with the position of the token that it is
about. -/
def stop? (body : List Token) (close : Token) : Option (SyntaxFault × Nat) :=
  let step := Rule.strictProgram (.start body close)
  match step.outcome with
  | .ok _ => none
  | .error fault => some (fault, fault.position step.cursor)

variable {body : List Token} {close : Token}

/-- Reading without recovery, judged where the end follows a sentence. -/
theorem judged_strictProgram (body : List Token) (hclose : close.kind = .eof) :
    Rule.Judged (.start body close) sentences {[.eof]}
      (Rule.strictProgram (.start body close)) := by
  have hstands : (Cursor.start body close).Stands false := ⟨hclose, by simp [Cursor.start]⟩
  refine Rule.decides_strictProgram _ hstands _ fun kind hkind word hmem => ?_
  obtain ⟨rfl, -⟩ := List.cons.inj (Set.mem_singleton_iff.1 hmem)
  exact Kind.mem_allBut.1 hkind (by simp)

/-- If the first fault is not about a bound, reading without recovery stops at it. The tokens before
the token at fault begin a sentence of the grammar, and no sentence with the end behind it begins
with them and the token at fault. -/
theorem first_fault_impossible (hclose : close.kind = .eof) {fault : SyntaxFault}
    (hfirst : (ofTokens body close).faults.head? = some fault)
    (hdeep : fault.error ≠ .tooDeep) (htarget : fault.error ≠ .assignmentTarget)
    (hparameters : fault.error ≠ .tooManyParameters) :
    ∃ p, stop? body close = some (fault, p) ∧ (body ++ [close])[p]? = some fault.token ∧
      (∃ sentence ∈ sentences, Token.kinds ((body ++ [close]).take p) <+: sentence) ∧
      ∀ sentence ∈ sentences,
        ¬ Token.kinds ((body ++ [close]).take (p + 1)) <+: sentence ++ [.eof] := by
  have hbound : fault.error.isBound = false := by
    cases herror : fault.error <;> simp_all [SyntaxError.isBound]
  have hstrict : (Rule.strictProgram (.start body close)).reports.head? = some fault := by
    rcases Rule.alike_program (.start body close) with ⟨a, d, hread, -⟩ | ⟨other, hother, hstrict⟩
    · have hnone : (ofTokens body close).faults = [] := congrArg Step.reports hread
      simp [hnone] at hfirst
    · obtain rfl : other = fault := Option.some.inj (hother.symm.trans hfirst)
      exact hstrict
  have hjudged := judged_strictProgram body hclose
  unfold stop?
  generalize Rule.strictProgram (.start body close) = step at hjudged hstrict
  cases hjudged with
  | read => cases hstrict
  | bound hother hisBound =>
    obtain rfl := Option.some.inj (hother.symm.trans hstrict)
    simp [hisBound] at hbound
  | @stuck other d ts rest hahead hposition hviable hdead =>
    obtain rfl : other = fault := Option.some.inj hstrict
    have htokens : body ++ [close] = ts ++ other.token :: rest := hahead
    have hplace : other.position d = ts.length := hposition.trans (Nat.zero_add _)
    refine ⟨ts.length, by simp [hplace], by simp [htokens], ?_, fun sentence hmem hall => ?_⟩
    · obtain ⟨word, hword⟩ := hviable
      exact ⟨_, hword, word, by simp [htokens]⟩
    · have htake : (body ++ [close]).take (ts.length + 1) = ts ++ [other.token] := by
        simp [htokens, List.take_append]
      obtain ⟨word, hword⟩ := hall
      refine hdead word ?_
      rw [htake, Token.kinds_append, List.append_assoc] at hword
      have hsentence : sentence ++ [.eof] ∈ sentences * {[.eof]} :=
        Language.append_mem_mul hmem rfl
      rw [← hword] at hsentence
      exact hsentence

/-- The tokens of `while (a) { fun f() { break; } }`. -/
def deadBreak : List Token :=
  [⟨.kwWhile, "while", none, 1⟩, ⟨.leftParen, "(", none, 1⟩, ⟨.identifier, "a", none, 1⟩,
    ⟨.rightParen, ")", none, 1⟩, ⟨.leftBrace, "\x7b", none, 1⟩, ⟨.kwFun, "fun", none, 1⟩,
    ⟨.identifier, "f", none, 1⟩, ⟨.leftParen, "(", none, 1⟩, ⟨.rightParen, ")", none, 1⟩,
    ⟨.leftBrace, "\x7b", none, 1⟩, ⟨.kwBreak, "break", none, 1⟩, ⟨.semicolon, ";", none, 1⟩,
    ⟨.rightBrace, "\x7d", none, 1⟩, ⟨.rightBrace, "\x7d", none, 1⟩]

/-- The loop does not reach into the function, so no sentence goes on with the jump. -/
theorem deadBreak_impossible :
    (ofTokens deadBreak ⟨.eof, "", none, 1⟩).faults.head? =
        some ⟨⟨.kwBreak, "break", none, 1⟩, .outsideLoop "break"⟩ ∧
      (∃ sentence ∈ sentences, Token.kinds (deadBreak.take 10) <+: sentence) ∧
      ∀ sentence ∈ sentences, ¬ Token.kinds (deadBreak.take 11) <+: sentence ++ [.eof] := by
  have hfirst : (ofTokens deadBreak ⟨.eof, "", none, 1⟩).faults.head? =
      some ⟨⟨.kwBreak, "break", none, 1⟩, .outsideLoop "break"⟩ := by decide +kernel
  have hstop : stop? deadBreak ⟨.eof, "", none, 1⟩ =
      some (⟨⟨.kwBreak, "break", none, 1⟩, .outsideLoop "break"⟩, 10) := by decide +kernel
  obtain ⟨p, hp, -, hviable, hdead⟩ := first_fault_impossible rfl hfirst nofun nofun nofun
  obtain rfl : p = 10 := by
    rw [hstop] at hp
    cases hp
    rfl
  exact ⟨hfirst, hviable, hdead⟩

end Reading

end Lox

import Lox.Proofs.StatementCompleteness
import Lox.Proofs.RuleParts

/-!
# Where reading resumes

When a statement cannot be read, tokens are dropped up to a boundary: behind a semicolon,
before a word that starts a statement, or at the end. No semicolon and no such word is
dropped on the way, with one exception. The token at which the statement failed is dropped
before anything is looked at, so a word that starts a statement is lost if the statement
before it fails right there. A missing semicolon in front of such a word is a case of this.
-/
namespace Lox

namespace Cursor

/-- The second list is where reading resumes once the first one has been dropped. Behind the first
token dropped no word starts a statement, before the last one there is no semicolon, and the
place is behind a semicolon, before a word that starts a statement, or at the end. -/
structure Resumes (dropped rest : List Token) : Prop where
  starts : ∀ token ∈ dropped.tail, token.kind.startsStatement = false
  semicolons : ∀ token ∈ dropped.dropLast, token.kind ≠ .semicolon
  boundary : (∃ token ∈ dropped.getLast?, token.kind = .semicolon) ∨
    (∃ token ∈ rest.head?, token.kind.startsStatement = true) ∨ rest = []

/-- A token that is no boundary is dropped before those that follow it. -/
theorem Resumes.cons {token next : Token} {dropped rest : List Token}
    (h : Resumes (next :: dropped) rest) (hnext : next.kind.startsStatement = false)
    (htoken : token.kind ≠ .semicolon) : Resumes (token :: next :: dropped) rest where
  starts := List.forall_mem_cons.2 ⟨hnext, h.starts⟩
  semicolons := List.forall_mem_cons.2 ⟨htoken, h.semicolons⟩
  boundary := by rw [List.getLast?_cons_cons]; exact h.boundary

/-- Only the first of the tokens dropped can be a word that starts a statement. -/
theorem Resumes.exists_startsStatement_iff {dropped rest : List Token} (h : Resumes dropped rest) :
    (∃ token ∈ dropped, token.kind.startsStatement = true) ↔
      ∃ token ∈ dropped.head?, token.kind.startsStatement = true := by
  cases dropped with
  | nil => simp
  | cons first others =>
    have hothers : ∀ token ∈ others, token.kind.startsStatement = false := h.starts
    simp only [List.mem_cons, List.head?_cons, Option.mem_def, Option.some.injEq,
      exists_eq_or_imp, exists_eq_left']
    exact or_iff_left fun ⟨token, hmem, hstarts⟩ => by simp [hothers token hmem] at hstarts

/-- The tokens ahead are those dropped and those from which reading resumes, and the first one is
always dropped. -/
theorem exists_resumes (ahead : List Token) : ∃ dropped,
    ahead = dropped ++ resume ahead ∧ dropped.head? = ahead.head? ∧
      Resumes dropped (resume ahead) := by
  induction ahead using resume.induct with
  | case1 => exact ⟨[], rfl, rfl, by simp, by simp, .inr (.inr rfl)⟩
  | case2 token => exact ⟨[token], rfl, rfl, by simp, by simp, .inr (.inr rfl)⟩
  | case3 token next rest hstop =>
    rw [resume, if_pos hstop]
    refine ⟨[token], rfl, rfl, by simp, by simp, ?_⟩
    rcases Bool.or_eq_true_iff.1 hstop with hsemicolon | hstarts
    · exact .inl ⟨token, rfl, of_decide_eq_true hsemicolon⟩
    · exact .inr (.inl ⟨next, rfl, hstarts⟩)
  | case4 token next rest hstop ih =>
    obtain ⟨dropped, happend, hhead, hresumes⟩ := ih
    obtain ⟨others, rfl⟩ := List.head?_eq_some_iff.1 hhead
    simp only [Bool.or_eq_true, decide_eq_true_eq, not_or, Bool.not_eq_true] at hstop
    have hresume : resume (token :: next :: rest) = resume (next :: rest) := by
      rw [resume, if_neg (by simp [hstop])]
    rw [hresume]
    exact ⟨token :: next :: others, congrArg (token :: ·) happend, rfl,
      hresumes.cons hstop.2 hstop.1⟩

end Cursor

namespace Rule

open Grammar

variable {room : Nat} {c after : Cursor} {fault : SyntaxFault} {reports : List SyntaxFault}

/-- A word that starts a statement does not continue an expression. -/
theorem notMem_continuing {kind : Kind} (h : kind.startsStatement = true) :
    kind ∉ Symbol.expression.continuing := by
  revert h
  cases kind <;> decide

/-- An expression with no semicolon behind it fails at the token behind it. -/
theorem declaration_of_missing_semicolon {ts rest : List Token} {e : Expr} {word : Token}
    (h : Derives room .expression ts e) (hword : word.kind.startsStatement = true)
    (hp : c.Passes ts after) (hahead : after.ahead = word :: rest) :
    declaration (expression room) (block room) c =
      ⟨.error ⟨word, .expected "';' after expression"⟩, after,
        [⟨word, .expected "';' after expression"⟩]⟩ := by
  have hpeek : after.peek = word := by rw [Cursor.peek, hahead, List.headD_cons]
  have hread : expression room c = ⟨.ok e, after, []⟩ :=
    reads_expression h hp (hpeek ▸ notMem_continuing hword)
  have hsemicolon : word.kind ≠ .semicolon := by
    intro heq
    rw [heq] at hword
    cases hword
  have hexpect : expect .semicolon "';' after expression" after =
      ⟨.error ⟨word, .expected "';' after expression"⟩, after,
        [⟨word, .expected "';' after expression"⟩]⟩ := by
    simp [expect, peek, hpeek, hsemicolon, fail, bind]
  have hstmt : expressionStmt (expression room) c =
      ⟨.error ⟨word, .expected "';' after expression"⟩, after,
        [⟨word, .expected "';' after expression"⟩]⟩ := by
    rw [expressionStmt, bind_of_ok hread, bind_of_error hexpect]
    rfl
  obtain ⟨t, us, rfl, ht⟩ := h.head
  have hfirst : c.peek = t := hp.peek_eq
  rw [← hstmt, declaration, statement]
  simp only [starters, List.mem_cons, List.not_mem_nil, or_false] at ht
  rcases ht with ht | ht | ht | ht | ht | ht | ht | ht | ht <;>
    simp [bind, peek, hfirst, ht]

theorem recovered_of_error
    (h : declaration (expression room) (block room) c = ⟨.error fault, after, reports⟩) :
    (recovered (expression room) (block room) c).cursor =
      ({ after with depth := c.depth, loops := c.loops }).resync := by
  rw [recovered, recover, h]

/-- After a statement has failed, reading resumes at the next boundary. Of the tokens dropped before
it only the first can be a word that starts a statement, and it is one if the statement failed at
such a word. That happens whenever the semicolon is missing between an expression and the next
statement. -/
theorem recovered_resumes (room : Nat) :
    (∀ (c after : Cursor) (fault : SyntaxFault) (reports : List SyntaxFault),
      declaration (expression room) (block room) c = ⟨.error fault, after, reports⟩ →
      let resumed := (recovered (expression room) (block room) c).cursor
      ∃ dropped, after.ahead = dropped ++ resumed.ahead ∧
        resumed.position = after.position + dropped.length ∧
        Cursor.Resumes dropped resumed.ahead ∧
        ((∃ token ∈ dropped, token.kind.startsStatement = true) ↔
          ∃ token ∈ after.ahead.head?, token.kind.startsStatement = true)) ∧
    ∀ (c : Cursor) (ts rest : List Token) (e : Expr) (word : Token),
      Derives room .expression ts e → word.kind.startsStatement = true →
      c.ahead = ts ++ word :: rest →
      ∃ dropped, c.ahead = ts ++ word :: dropped ++
        (recovered (expression room) (block room) c).cursor.ahead := by
  refine ⟨fun c after fault reports h => ?_, fun c ts rest e word h hword hahead => ?_⟩
  · obtain ⟨dropped, happend, hhead, hresumes⟩ := Cursor.exists_resumes after.ahead
    rw [recovered_of_error h]
    have hlength := congrArg List.length happend
    rw [List.length_append] at hlength
    refine ⟨dropped, happend, ?_, hresumes, hhead ▸ hresumes.exists_startsStatement_iff⟩
    change after.position + (after.ahead.length - (Cursor.resume after.ahead).length) = _
    omega
  · let after : Cursor := { c with ahead := word :: rest, position := c.position + ts.length }
    have hp : c.Passes ts after := ⟨hahead, rfl, rfl, rfl, rfl⟩
    have hfail := declaration_of_missing_semicolon h hword hp rfl
    obtain ⟨dropped, happend, hhead, -⟩ := Cursor.exists_resumes (word :: rest)
    obtain ⟨others, rfl⟩ := List.head?_eq_some_iff.1 hhead
    rw [recovered_of_error hfail, hahead]
    refine ⟨others, ?_⟩
    rw [List.append_assoc]
    exact congrArg (ts ++ ·) happend

end Rule

/-- The program `nil print true;`, in which a semicolon is missing. -/
def unseparated : List Token :=
  [⟨.kwNil, "nil", some "nil", 1⟩, ⟨.kwPrint, "print", some "print", 1⟩,
    ⟨.kwTrue, "true", some "true", 1⟩, ⟨.semicolon, ";", none, 1⟩]

/-- The cursor before the program. -/
def unseparatedStart : Cursor := .start unseparated ⟨.eof, "", none, 1⟩

/-- The expression fails at the second statement, which is lost with its first word. -/
theorem recovered_resumes_unseparated : ∃ dropped,
    unseparated = [⟨.kwNil, "nil", some "nil", 1⟩] ++
      ⟨.kwPrint, "print", some "print", 1⟩ :: dropped ++
        (Rule.recovered (Rule.expression 64) (Rule.block 64) unseparatedStart).cursor.ahead := by
  have hnil : Grammar.Derives 64 .expression [⟨.kwNil, "nil", some "nil", 1⟩] (.literal .nil) :=
    .expression (.operation (.single (.single (.single (.single (.single (.single
      (.primary (.nil rfl)))))))))
  exact (Rule.recovered_resumes 64).2 unseparatedStart _ _ _ _ hnil rfl rfl

/-- Recovery drops `print`, which starts a statement, and that statement is missing from the
program. -/
theorem dropped_unseparated :
    (Rule.declaration (Rule.expression 64) (Rule.block 64) unseparatedStart).outcome.isOk = false ∧
      (Rule.declaration (Rule.expression 64) (Rule.block 64) unseparatedStart).cursor.ahead =
        [⟨.kwPrint, "print", some "print", 1⟩, ⟨.kwTrue, "true", some "true", 1⟩,
          ⟨.semicolon, ";", none, 1⟩] ∧
      (Rule.recovered (Rule.expression 64) (Rule.block 64) unseparatedStart).cursor.ahead = [] ∧
      (Reading.ofTokens unseparated ⟨.eof, "", none, 1⟩).program =
        [.error ⟨.kwPrint, "print", some "print", 1⟩ "Expect ';' after expression."] :=
  ⟨by decide +kernel, by decide +kernel, by decide +kernel, by rfl⟩

end Lox

import Lox.Proofs.RuleParts

/-!
# Progress

A statement that is read passes a token, and one that cannot be read is passed by at
least a token when reading resumes. Every round of a loop of rules passes a token too,
so the bounds of the loops never cut them short: each loop is the one that goes round
for as long as there is more to read.
-/
namespace Lox

namespace Cursor

variable {c c' : Cursor} {ts : List Token}

theorem Passes.length_le (h : c.Passes ts c') : c'.ahead.length ≤ c.ahead.length := by
  rw [h.ahead, List.length_append]
  omega

theorem length_advance_lt (hclose : c.close.kind = .eof) (h : c.peek.kind ≠ .eof) :
    c.advance.ahead.length < c.ahead.length := by
  rw [(passes_advance hclose h).ahead]
  simp

theorem length_resume_lt {ahead : List Token} (h : ahead ≠ []) :
    (resume ahead).length < ahead.length := by
  induction ahead using resume.induct with
  | case1 => exact absurd rfl h
  | case2 t => simp [resume]
  | case3 t next rest hstop => simp [resume, hstop]
  | case4 t next rest hstop ih =>
    rw [resume, if_neg hstop]
    have hrest := ih (List.cons_ne_nil _ _)
    simp only [List.length_cons] at hrest ⊢
    omega

theorem peek_kind_of_nil (hclose : c.close.kind = .eof) (h : c.ahead = []) :
    c.peek.kind = .eof := by
  rw [peek, h]
  exact hclose

theorem peek_mem (h : c.ahead ≠ []) : c.peek ∈ c.ahead := by
  obtain ⟨t, rest, hahead⟩ := List.exists_cons_of_ne_nil h
  simp [peek, hahead]

theorem Passes.behind_eq (h : c.Passes ts c') : c'.behind = c.behind := by
  have hlength := congrArg List.length h.ahead
  rw [List.length_append] at hlength
  simp only [behind, h.close, h.depth, h.loops, h.position, mk.injEq, true_and, and_true]
  omega

end Cursor

/-- The step with items and reports in front. -/
def Step.after {α : Type} (step : Step (List α)) (items : List α) (reports : List SyntaxFault) :
    Step (List α) :=
  ⟨(items ++ ·) <$> step.outcome, step.cursor, reports ++ step.reports⟩

theorem Step.after_after {α : Type} (step : Step (List α)) (items more : List α)
    (reports others : List SyntaxFault) :
    (step.after more others).after items reports =
      step.after (items ++ more) (reports ++ others) := by
  obtain ⟨fault | as, c, reports'⟩ := step
  · simp [after, Functor.map, Except.map]
  · simp [after, Functor.map, Except.map]

namespace Rule

variable {α β : Type} {c : Cursor}

/-- If the rule has a result here, it has passed a token. -/
def ConsumesAt (rule : Rule α) (c : Cursor) : Prop :=
  ∀ a, (rule c).outcome = .ok a → (rule c).cursor.ahead.length < c.ahead.length

/-- If the rule has a result, it has passed a token. -/
def Consumes (rule : Rule α) : Prop := ∀ c : Cursor, c.close.kind = .eof → ConsumesAt rule c

theorem Composed.passes_of_ok {rule : Rule α} {d : Cursor} {a : α} {reports : List SyntaxFault}
    (h : Composed rule) (ha : rule c = ⟨.ok a, d, reports⟩) : ∃ ts, c.Passes ts d := by
  have hok : (rule c).outcome = .ok a := by rw [ha]
  have hpasses := h.forward.passes_of_ok hok
  rwa [ha] at hpasses

theorem Composed.length_le {rule : Rule α} (h : Composed rule) (c : Cursor) :
    (rule c).cursor.ahead.length ≤ c.ahead.length := by
  obtain ⟨ts, hts⟩ := h.forward.passes c
  exact hts.length_le

theorem ConsumesAt.length_lt {rule : Rule α} {d : Cursor} {a : α} {reports : List SyntaxFault}
    (h : ConsumesAt rule c) (ha : rule c = ⟨.ok a, d, reports⟩) :
    d.ahead.length < c.ahead.length := by
  have hlt := h a (by rw [ha])
  rwa [ha] at hlt

theorem consumesAt_peek_bind {next : Token → Rule α} :
    ConsumesAt (peek >>= next) c ↔ ConsumesAt (next c.peek) c := Iff.rfl

theorem ConsumesAt.bind {rule : Rule α} {next : α → Rule β} (hr : ConsumesAt rule c)
    (hn : ∀ a, Composed (next a)) : ConsumesAt (rule >>= next) c := by
  intro b hb
  rcases h : rule c with ⟨fault | a, d, reports⟩
  · rw [bind_of_error h] at hb
    cases hb
  · rw [bind_of_ok h]
    exact ((hn a).length_le d).trans_lt (hr.length_lt h)

theorem ConsumesAt.bind_right {rule : Rule α} {next : α → Rule β} (hr : Composed rule)
    (hn : ∀ a, Consumes (next a)) (hclose : c.close.kind = .eof) :
    ConsumesAt (rule >>= next) c := by
  intro b hb
  rcases h : rule c with ⟨fault | a, d, reports⟩
  · rw [bind_of_error h] at hb
    cases hb
  · obtain ⟨ts, hts⟩ := hr.passes_of_ok h
    rw [bind_of_ok h] at hb ⊢
    exact (hn a d (hts.close_kind hclose) b hb).trans_le hts.length_le

theorem Consumes.bind {rule : Rule α} {next : α → Rule β} (hr : Consumes rule)
    (hn : ∀ a, Composed (next a)) : Consumes (rule >>= next) :=
  fun c hclose => (hr c hclose).bind hn

theorem consumesAt_advance (hclose : c.close.kind = .eof) (h : c.peek.kind ≠ .eof) :
    ConsumesAt advance c := fun _ _ => Cursor.length_advance_lt hclose h

theorem consumes_expect {kind : Kind} {what : String} (hkind : kind ≠ .eof) :
    Consumes (expect kind what) := by
  intro c hclose
  change ConsumesAt (if c.peek.kind = kind then _ else _) c
  split
  · next h => exact (consumesAt_advance hclose (h ▸ hkind)).bind fun _ => .pure _
  · intro a ha
    cases ha

/-- A token that is accepted is passed. -/
theorem length_lt_of_accept {wanted : Kind → Bool} {t : Token} {d : Cursor}
    {reports : List SyntaxFault} (heof : wanted .eof = false) (hclose : c.close.kind = .eof)
    (h : accept wanted c = ⟨.ok (some t), d, reports⟩) : d.ahead.length < c.ahead.length := by
  change (if wanted c.peek.kind then _ else _ : Rule (Option Token)) c = _ at h
  split at h
  · next hw =>
    have hne : c.peek.kind ≠ .eof := fun he => by simp [he, heof] at hw
    have hd : c.advance = d := congrArg Step.cursor h
    exact hd ▸ Cursor.length_advance_lt hclose hne
  · cases h

/-! ### Statements -/

variable {expression : Rule Expr} {block : Rule (List Stmt)}

/-- A word that opens a statement is passed. -/
theorem consumesAt_word {next : Unit → Rule α} {kind : Kind} (hclose : c.close.kind = .eof)
    (hkind : c.peek.kind = kind) (hne : kind ≠ .eof) (hn : ∀ u, Composed (next u)) :
    ConsumesAt (advance >>= next) c :=
  (consumesAt_advance hclose (hkind ▸ hne)).bind hn

theorem consumes_function (hb : Composed block) (word : String) :
    Consumes (function block word) :=
  (consumes_expect (by decide)).bind fun _ => .bind .expect fun _ => .bind .parameters fun _ =>
    .bind .expect fun _ => .bind .expect fun _ => .bind (.outsideLoops hb) fun _ => .pure _

theorem consumes_statement (he : Composed expression) (hb : Composed block) :
    Consumes (statement expression block) := by
  intro c hclose
  refine consumesAt_peek_bind.2 ?_
  split
  case h_10 =>
    -- an expression may begin with anything, but its semicolon is passed
    have hsemicolon (e : Expr) :
        Consumes (Rule.expect .semicolon "';' after expression" >>= fun _ =>
          pure (Stmt.expression e)) :=
      (consumes_expect (by decide)).bind fun _ => .pure _
    exact ConsumesAt.bind_right he hsemicolon hclose
  case h_1 h => exact consumesAt_word hclose h (by decide) fun _ => he.printStmt
  case h_2 h => exact consumesAt_word hclose h (by decide) fun _ => he.ifStmt hb
  case h_3 h => exact consumesAt_word hclose h (by decide) fun _ => he.whileStmt hb
  case h_4 h => exact consumesAt_word hclose h (by decide) fun _ => he.forStmt hb
  case h_5 h => exact consumesAt_word hclose h (by decide) fun _ => he.returnStmt _
  case h_6 h => exact consumesAt_word hclose h (by decide) fun _ => .jumpStmt _ _ _
  case h_7 h => exact consumesAt_word hclose h (by decide) fun _ => .jumpStmt _ _ _
  case h_8 h => exact consumesAt_word hclose h (by decide) fun _ => hb.bind fun _ => .pure _
  case h_9 h => exact consumesAt_word hclose h (by decide) fun _ => .pure _

theorem consumes_declaration (he : Composed expression) (hb : Composed block) :
    Consumes (declaration expression block) := by
  intro c hclose
  refine consumesAt_peek_bind.2 ?_
  split
  case h_1 h => exact consumesAt_word hclose h (by decide) fun _ => hb.classDecl
  case h_2 h =>
    exact consumesAt_word hclose h (by decide) fun _ => (hb.function _).bind fun _ => .pure _
  case h_3 h => exact consumesAt_word hclose h (by decide) fun _ => he.varDecl
  case h_4 => exact consumes_statement he hb c hclose

/-- Before the end, a statement passes a token, whether it can be read or not, and leaves as much
open as before. -/
theorem recovered_passes (he : Composed expression) (hb : Composed block)
    (hclose : c.close.kind = .eof) (hahead : c.ahead ≠ []) :
    ∃ stmt ts, (recovered expression block c).outcome = .ok stmt ∧ ts ≠ [] ∧
      c.Passes ts (recovered expression block c).cursor := by
  have hconsumes := consumes_declaration he hb c hclose
  have hpasses := (he.declaration hb).forward.passes c
  unfold ConsumesAt at hconsumes
  unfold recovered recover
  rcases h : declaration expression block c with ⟨fault | stmt, d, reports⟩
  · rw [h] at hpasses
    obtain ⟨ts, hts⟩ := hpasses
    obtain ⟨us, hus⟩ := (d.reopen c).exists_passes_resync
    refine ⟨_, ts ++ us, rfl, ?_, hts.trans hus⟩
    intro hnil
    obtain ⟨rfl, rfl⟩ := List.append_eq_nil_iff.1 hnil
    -- if the failing rule has passed nothing, resuming has
    have hd : (d.reopen c).ahead = c.ahead := by rw [hts.ahead]; rfl
    have hlt := Cursor.length_resume_lt (hd ▸ hahead)
    have hresume : (d.reopen c).ahead = Cursor.resume (d.reopen c).ahead := hus.ahead
    rw [← hresume] at hlt
    exact lt_irrefl _ hlt
  · rw [h] at hconsumes
    have hok : (declaration expression block c).outcome = .ok stmt := by rw [h]
    obtain ⟨ts, hts⟩ := (he.declaration hb).forward.passes_of_ok hok
    rw [h] at hts
    refine ⟨stmt, ts, rfl, ?_, hts⟩
    rintro rfl
    have hlt := hconsumes stmt rfl
    rw [hts.ahead, List.nil_append] at hlt
    exact lt_irrefl _ hlt

/-! ### Loops -/

/-- Two continuations do the same behind a rule if they do so where the rule ends. -/
theorem bind_congr_of_ok {rule : Rule α} {next next' : α → Rule β}
    (h : ∀ a d reports, rule c = ⟨.ok a, d, reports⟩ → next a d = next' a d) :
    (rule >>= next) c = (rule >>= next') c := by
  rcases hrule : rule c with ⟨fault | a, d, reports⟩
  · rw [bind_of_error hrule, bind_of_error hrule]
  · rw [bind_of_ok hrule, bind_of_ok hrule, h a d reports hrule]

section Many

variable {stop : Kind} {item : Rule α} {rest rest' : Rule (List α)}

/-- Where there is no stop and not the end, an item passes a token. -/
def ConsumesBefore (stop : Kind) (item : Rule α) : Prop :=
  ∀ c : Cursor, c.close.kind = .eof → c.peek.kind ≠ stop → c.peek.kind ≠ .eof → ConsumesAt item c

/-- Reads an item and then what `rest` reads, unless there is a stop or the end. -/
def manyRound (stop : Kind) (item : Rule α) (rest : Rule (List α)) : Rule (List α) := do
  let kind := (← peek).kind
  if kind = stop ∨ kind = .eof then return []
  else return (← item) :: (← rest)

theorem manyRound_congr (hitem : Composed item) (hconsumes : ConsumesBefore stop item)
    (hclose : c.close.kind = .eof)
    (h : ∀ d : Cursor, d.close.kind = .eof → d.ahead.length < c.ahead.length → rest d = rest' d) :
    manyRound stop item rest c = manyRound stop item rest' c := by
  change (if _ then _ else _ : Rule (List α)) c = (if _ then _ else _ : Rule (List α)) c
  split
  · rfl
  · next hstop =>
    obtain ⟨hstop, heof⟩ := not_or.1 hstop
    refine bind_congr_of_ok fun a d reports ha => ?_
    obtain ⟨ts, hts⟩ := hitem.passes_of_ok ha
    have hlt := (hconsumes c hclose hstop heof).length_lt ha
    have hrest := h d (hts.close_kind hclose) hlt
    simp only [bind, hrest]

theorem manyRound_of_nil (hclose : c.close.kind = .eof) (hnil : c.ahead = []) :
    manyRound stop item rest c = ⟨.ok [], c, []⟩ := by
  have heof := Cursor.peek_kind_of_nil hclose hnil
  change (if _ then _ else _ : Rule (List α)) c = _
  rw [if_pos (.inr heof)]
  rfl

theorem manyRound_of_ok {a : α} {d : Cursor} {reports : List SyntaxFault}
    (hstop : c.peek.kind ≠ stop) (heof : c.peek.kind ≠ .eof)
    (hitem : item c = ⟨.ok a, d, reports⟩) :
    manyRound stop item rest c = (rest d).after [a] reports := by
  change (if _ then _ else _ : Rule (List α)) c = _
  rw [if_neg (not_or.2 ⟨hstop, heof⟩), bind_of_ok hitem]
  rcases hrest : rest d with ⟨fault | as, e, more⟩
  · rw [bind_of_error hrest]
    rfl
  · rw [bind_of_ok hrest]
    simp [Step.after, pure, Functor.map, Except.map]

theorem many_of_nil (hnil : c.ahead = []) : many stop item c = ⟨.ok [], c, []⟩ := by
  change manyUntil stop item c.ahead c = _
  rw [hnil]
  rfl

/-- Bounds that are long enough do not matter. -/
theorem manyUntil_eq_of_length_le (hitem : Composed item) (hconsumes : ConsumesBefore stop item)
    {bound bound' : List Token} (hclose : c.close.kind = .eof)
    (h : c.ahead.length ≤ bound.length) (h' : c.ahead.length ≤ bound'.length) :
    manyUntil stop item bound c = manyUntil stop item bound' c := by
  induction bound generalizing c bound' with
  | nil =>
    have hnil : c.ahead = [] := List.length_eq_zero_iff.1 (Nat.le_zero.1 h)
    cases bound' with
    | nil => rfl
    | cons _ more' => exact (manyRound_of_nil hclose hnil).symm
  | cons _ more ih =>
    cases bound' with
    | nil =>
      have hnil : c.ahead = [] := List.length_eq_zero_iff.1 (Nat.le_zero.1 h')
      exact manyRound_of_nil hclose hnil
    | cons _ more' =>
      rw [List.length_cons] at h h'
      exact manyRound_congr hitem hconsumes hclose fun d hd hlt => ih hd (by omega) (by omega)

/-- Many items are read in rounds for as long as there is more to read. -/
theorem many_eq (hitem : Composed item) (hconsumes : ConsumesBefore stop item)
    (hclose : c.close.kind = .eof) :
    many stop item c = manyRound stop item (many stop item) c := by
  change manyUntil stop item c.ahead c = _
  cases hahead : c.ahead with
  | nil => exact (manyRound_of_nil hclose hahead).symm
  | cons t rest =>
    refine manyRound_congr hitem hconsumes hclose fun d hd hlt => ?_
    rw [hahead, List.length_cons] at hlt
    exact manyUntil_eq_of_length_le hitem hconsumes hd (by omega) le_rfl

end Many

section Statements

variable {expression : Rule Expr} {block : Rule (List Stmt)}

theorem consumesBefore_recovered (he : Composed expression) (hb : Composed block) {stop : Kind} :
    ConsumesBefore stop (recovered expression block) := by
  intro c hclose _ hne stmt _
  have hahead : c.ahead ≠ [] := fun hnil => hne (Cursor.peek_kind_of_nil hclose hnil)
  obtain ⟨_, ts, -, hts, hpasses⟩ := recovered_passes he hb hclose hahead
  have hlength := List.length_pos_of_ne_nil hts
  rw [hpasses.ahead, List.length_append]
  omega

/-- Statements up to the end can always be read, and all tokens are passed. -/
theorem many_recovered_eq (he : Composed expression) (hb : Composed block)
    (hclose : c.close.kind = .eof) (hahead : ∀ t ∈ c.ahead, t.kind ≠ .eof) :
    ∃ stmts reports,
      many .eof (recovered expression block) c = ⟨.ok stmts, c.behind, reports⟩ := by
  induction hlength : c.ahead.length using Nat.strong_induction_on generalizing c with
  | _ n ih =>
    by_cases hnil : c.ahead = []
    · have hbehind : c.behind = c := Cursor.passes_nil.1 (hnil ▸ c.passes_behind)
      exact ⟨[], [], by rw [many_of_nil hnil, hbehind]⟩
    obtain ⟨stmt, ts, hok, hts, hpasses⟩ := recovered_passes he hb hclose hnil
    rcases hstmt : recovered expression block c with ⟨outcome, d, reports⟩
    rw [hstmt] at hok hpasses
    obtain rfl : outcome = .ok stmt := hok
    have hpasses : c.Passes ts d := hpasses
    have hlt : d.ahead.length < n := by
      have hpos := List.length_pos_of_ne_nil hts
      rw [← hlength, hpasses.ahead, List.length_append]
      omega
    have hmem : ∀ t ∈ d.ahead, t.kind ≠ .eof := fun t ht =>
      hahead t (hpasses.ahead ▸ List.mem_append_right ts ht)
    obtain ⟨stmts, more, hmore⟩ := ih _ hlt (hpasses.close_kind hclose) hmem rfl
    have hpeek : c.peek.kind ≠ .eof := hahead _ (Cursor.peek_mem hnil)
    refine ⟨stmt :: stmts, reports ++ more, ?_⟩
    rw [many_eq (he.recovered hb) (consumesBefore_recovered he hb) hclose,
      manyRound_of_ok hpeek hpeek hstmt, hmore, hpasses.behind_eq]
    rfl

end Statements

section Chain

variable {level : Level} {operand : Rule Expr} {left : Expr} {rest rest' : Expr → Rule Expr}

/-- The operators of a level and their right operands that follow `left`. -/
def chainRest (level : Level) (operand : Rule Expr) (left : Expr) : Rule Expr := do
  chainFrom level operand left (← ahead)

/-- Reads an operator with its right operand and then what `rest` reads, if an operator follows. -/
def chainRound (level : Level) (operand : Rule Expr) (left : Expr) (rest : Expr → Rule Expr) :
    Rule Expr := do
  match ← accept level.wanted with
  | none => return left
  | some op => rest (level.make left op (← operand))

/-- A semicolon is no operator, and neither is the end. -/
theorem wanted_of_mem_levels {level : Level} (h : level ∈ levels) :
    level.wanted .semicolon = false ∧ level.wanted .eof = false := by
  simp only [levels, List.mem_cons, List.not_mem_nil, or_false] at h
  rcases h with rfl | rfl | rfl | rfl | rfl | rfl <;> exact ⟨rfl, rfl⟩

theorem chainFrom_cons (t : Token) (more : List Token) :
    chainFrom level operand left (t :: more) =
      chainRound level operand left fun e => chainFrom level operand e more := by
  rw [chainFrom]
  rfl

theorem chainRound_congr (heof : level.wanted .eof = false) (ho : Composed operand)
    (hclose : c.close.kind = .eof)
    (h : ∀ (e : Expr) (d : Cursor), d.close.kind = .eof → d.ahead.length < c.ahead.length →
      rest e d = rest' e d) :
    chainRound level operand left rest c = chainRound level operand left rest' c := by
  refine bind_congr_of_ok fun o d reports haccept => ?_
  cases o with
  | none => rfl
  | some op =>
    have hlt := length_lt_of_accept heof hclose haccept
    obtain ⟨ts, hts⟩ := Composed.accept.passes_of_ok haccept
    refine bind_congr_of_ok fun right e more hright => ?_
    obtain ⟨us, hus⟩ := ho.passes_of_ok hright
    exact h _ e (hus.close_kind (hts.close_kind hclose)) (hus.length_le.trans_lt hlt)

theorem chainRound_of_nil (heof : level.wanted .eof = false) (hclose : c.close.kind = .eof)
    (hnil : c.ahead = []) : chainRound level operand left rest c = ⟨.ok left, c, []⟩ := by
  have hpeek := Cursor.peek_kind_of_nil hclose hnil
  have haccept : accept level.wanted c = ⟨.ok none, c, []⟩ := by
    exact reads_accept_none (by rw [hpeek, heof])
  exact bind_of_ok haccept

theorem chainFrom_eq_of_length_le (heof : level.wanted .eof = false) (ho : Composed operand)
    {bound bound' : List Token} (hclose : c.close.kind = .eof)
    (h : c.ahead.length ≤ bound.length) (h' : c.ahead.length ≤ bound'.length) :
    chainFrom level operand left bound c = chainFrom level operand left bound' c := by
  induction bound generalizing c left bound' with
  | nil =>
    have hnil : c.ahead = [] := List.length_eq_zero_iff.1 (Nat.le_zero.1 h)
    cases bound' with
    | nil => rfl
    | cons _ more' =>
      rw [chainFrom_cons, chainRound_of_nil heof hclose hnil]
      rfl
  | cons _ more ih =>
    rw [chainFrom_cons]
    cases bound' with
    | nil =>
      have hnil : c.ahead = [] := List.length_eq_zero_iff.1 (Nat.le_zero.1 h')
      exact chainRound_of_nil heof hclose hnil
    | cons _ more' =>
      rw [chainFrom_cons]
      rw [List.length_cons] at h h'
      exact chainRound_congr heof ho hclose fun e d hd hlt => ih hd (by omega) (by omega)

/-- Operators are read in rounds for as long as there are more. -/
theorem chainRest_eq (heof : level.wanted .eof = false) (ho : Composed operand)
    (hclose : c.close.kind = .eof) :
    chainRest level operand left c =
      chainRound level operand left (chainRest level operand) c := by
  change chainFrom level operand left c.ahead c = _
  cases hahead : c.ahead with
  | nil => exact (chainRound_of_nil heof hclose hahead).symm
  | cons t ahead =>
    rw [chainFrom_cons]
    refine chainRound_congr heof ho hclose fun e d hd hlt => ?_
    rw [hahead, List.length_cons] at hlt
    exact chainFrom_eq_of_length_le heof ho hd (by omega) le_rfl

end Chain

section Parameters

/-- The parameters behind the first `count` ones. -/
def parametersRest (count : Nat) : Rule (List Token) := do
  let token ← peek
  parametersFrom count (token :: (← ahead))

/-- Reads a name and then what `rest` reads, if a comma follows. -/
def namesRound (rest : Rule (List Token)) : Rule (List Token) := do
  let name ← expect .identifier "parameter name"
  match ← accept (· == .comma) with
  | none => return [name]
  | some _ => return name :: (← rest)

/-- Reads a parameter and then what `rest` reads, if a comma follows. One after the first 255 is
reported. -/
def parametersRound (count : Nat) (rest : Rule (List Token)) : Rule (List Token) := do
  if 255 ≤ count then report (← peek) .tooManyParameters
  namesRound rest

theorem parametersFrom_cons (count : Nat) (t : Token) (more : List Token) :
    parametersFrom count (t :: more) = parametersRound count (parametersFrom (count + 1) more) := by
  rw [parametersFrom]
  rfl

theorem Composed.parametersRest (count : Nat) : Composed (parametersRest count) :=
  .bind .peek fun _ => .bind .ahead fun _ => .parametersFrom _ count

variable {count : Nat} {rest rest' : Rule (List Token)}

/-- A name and a comma are passed before the rest. -/
theorem namesRound_congr (hclose : c.close.kind = .eof)
    (h : ∀ d : Cursor, d.close.kind = .eof → d.ahead.length + 1 < c.ahead.length →
      rest d = rest' d) : namesRound rest c = namesRound rest' c := by
  refine bind_congr_of_ok fun name d reports hname => ?_
  obtain ⟨ts, hts⟩ := Composed.expect.passes_of_ok hname
  have hfirst := (consumes_expect (by decide) c hclose).length_lt hname
  have hd := hts.close_kind hclose
  refine bind_congr_of_ok fun o e more ho => ?_
  cases o with
  | none => rfl
  | some comma =>
    obtain ⟨us, hus⟩ := Composed.accept.passes_of_ok ho
    have hsecond := length_lt_of_accept rfl hd ho
    have hrest := h e (hus.close_kind hd) (by omega)
    simp only [bind, hrest]

theorem parametersRound_congr (hclose : c.close.kind = .eof)
    (h : ∀ d : Cursor, d.close.kind = .eof → d.ahead.length + 1 < c.ahead.length →
      rest d = rest' d) : parametersRound count rest c = parametersRound count rest' c := by
  have hnames := namesRound_congr hclose h
  unfold parametersRound
  dsimp only
  split
  · refine bind_congr_of_ok fun t d reports ht => ?_
    cases ht
    refine bind_congr_of_ok fun _ e more he => ?_
    cases he
    exact hnames
  · exact hnames

theorem parametersFrom_eq_of_length_lt {bound bound' : List Token} (hclose : c.close.kind = .eof)
    (h : c.ahead.length < bound.length) (h' : c.ahead.length < bound'.length) :
    parametersFrom count bound c = parametersFrom count bound' c := by
  induction bound generalizing c count bound' with
  | nil => exact absurd h (Nat.not_lt_zero _)
  | cons _ more ih =>
    cases bound' with
    | nil => exact absurd h' (Nat.not_lt_zero _)
    | cons _ more' =>
      rw [List.length_cons] at h h'
      rw [parametersFrom_cons, parametersFrom_cons]
      exact parametersRound_congr hclose fun d hd hlt => ih hd (by omega) (by omega)

/-- Parameters are read in rounds for as long as commas follow. -/
theorem parametersRest_eq (hclose : c.close.kind = .eof) :
    parametersRest count c = parametersRound count (parametersRest (count + 1)) c := by
  change parametersFrom count (c.peek :: c.ahead) c = _
  rw [parametersFrom_cons]
  refine parametersRound_congr hclose fun d hd hlt => ?_
  exact parametersFrom_eq_of_length_lt hd (by omega) (Nat.lt_succ_self _)

theorem parametersFrom_zero_eq (hclose : c.close.kind = .eof) :
    parametersFrom 0 c.ahead c = parametersRest 0 c := by
  rw [parametersRest_eq hclose]
  cases hahead : c.ahead with
  | nil =>
    have hne : c.peek.kind ≠ .identifier := by
      rw [Cursor.peek_kind_of_nil hclose hahead]
      decide
    let fault : SyntaxFault := ⟨c.peek, .expected "parameter name"⟩
    have hfail : expect .identifier "parameter name" c = ⟨.error fault, c, [fault]⟩ := by
      change (if _ then _ else _ : Rule Token) c = _
      rw [if_neg hne]
      rfl
    exact (bind_of_error hfail).trans (bind_of_error hfail).symm
  | cons t more =>
    rw [parametersFrom_cons]
    refine parametersRound_congr hclose fun d hd hlt => ?_
    rw [hahead, List.length_cons] at hlt
    exact parametersFrom_eq_of_length_lt hd (by omega) (Nat.lt_succ_self _)

end Parameters

/-- A program can be read from any tokens, and all of them are passed. -/
theorem program_eq {body : List Token} {close : Token} (hclose : close.kind = .eof)
    (hbody : ∀ t ∈ body, t.kind ≠ .eof) :
    ∃ stmts faults, program (.start body close) =
      ⟨.ok stmts, ⟨[], close, body.length, 0, 0⟩, faults⟩ := by
  have h := many_recovered_eq (c := .start body close) (Composed.operand_expression maxDepth).2
    (.block_room maxDepth) hclose hbody
  rw [Cursor.behind, Cursor.start, Nat.zero_add] at h
  exact h

end Rule

theorem Reading.ofTokens_of_ok {body : List Token} {close : Token} {stmts : List Stmt}
    {finish : Cursor} {faults : List SyntaxFault}
    (h : Rule.program (.start body close) = ⟨.ok stmts, finish, faults⟩) :
    Reading.ofTokens body close = ⟨stmts, faults, finish⟩ := by
  rw [ofTokens, h]

end Lox

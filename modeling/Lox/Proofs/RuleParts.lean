import Lox.Rule.Statement
import Lox.Proofs.CleanReading

/-!
# Rules and their parts

All rules are put together from a few basic ones, in sequence or one around another.
What the parts hand on to the whole is therefore true of every rule. Two things are
shown in this way, of readings with and without faults: a rule passes tokens, and when
it has a result, as much is open as before; and no rule looks at the number of tokens
that have been read.
-/
namespace Lox

namespace Rule

variable {α β : Type}

/-- The rule is put together from basic rules. -/
inductive Composed : {α : Type} → Rule α → Prop where
  | pure {α : Type} (a : α) : Composed (pure a)
  | bind {α β : Type} {rule : Rule α} {next : α → Rule β} :
    Composed rule → (∀ a, Composed (next a)) → Composed (rule >>= next)
  | peek : Composed peek
  | ahead : Composed ahead
  | loops : Composed loops
  | advance : Composed advance
  | report (token : Token) (error : SyntaxError) : Composed (report token error)
  | fail {α : Type} (token : Token) (error : SyntaxError) : Composed (fail token error : Rule α)
  | tooDeep {α : Type} : Composed (tooDeep : Rule α)
  | nested {α : Type} {rule : Rule α} : Composed rule → Composed (nested rule)
  | inLoop {α : Type} {rule : Rule α} : Composed rule → Composed (inLoop rule)
  | outsideLoops {α : Type} {rule : Rule α} : Composed rule → Composed (outsideLoops rule)
  | recover {α : Type} {rule : Rule α} {instead : SyntaxFault → α} :
    Composed rule → Composed (recover rule instead)

namespace Composed

theorem map {rule : Rule α} (h : Composed rule) (f : α → β) : Composed (f <$> rule) :=
  h.bind fun _ => .pure _

theorem accept {wanted : Kind → Bool} : Composed (accept wanted) := by
  refine .bind .peek fun token => ?_
  split
  · exact .bind .advance fun _ => .pure _
  · exact .pure _

theorem expect {kind : Kind} {what : String} : Composed (expect kind what) := by
  refine .bind .peek fun token => ?_
  split
  · exact .bind .advance fun _ => .pure _
  · exact .fail _ _

theorem manyUntil {stop : Kind} {item : Rule α} (h : Composed item) (bound : List Token) :
    Composed (manyUntil stop item bound) := by
  induction bound with
  | nil => exact .pure _
  | cons _ more ih =>
    refine .bind .peek fun token => ?_
    dsimp only
    split
    · exact .pure _
    · exact h.bind fun _ => ih.bind fun _ => .pure _

theorem many {stop : Kind} {item : Rule α} (h : Composed item) : Composed (many stop item) :=
  .bind .ahead fun bound => h.manyUntil bound

/-! ### Expressions -/

variable {operand deeper expression : Rule Expr} {block : Rule (List Stmt)}

theorem chainFrom {level : Level} (ho : Composed operand) (bound : List Token) :
    ∀ left, Composed (chainFrom level operand left bound) := by
  induction bound with
  | nil => exact fun left => .pure _
  | cons _ more ih =>
    intro left
    refine .bind .accept fun o => ?_
    cases o with
    | none => exact .pure _
    | some op => exact ho.bind fun right => ih _

theorem chain {level : Level} (ho : Composed operand) : Composed (chain level operand) :=
  ho.bind fun left => .bind .ahead fun bound => ho.chainFrom bound left

theorem operation (ho : Composed operand) : Composed (operation operand) := by
  unfold Rule.operation
  induction levels with
  | nil => exact ho
  | cons level rest ih => exact ih.chain

theorem assignment (ho : Composed operand) (he : Composed expression) :
    Composed (assignment operand expression) := by
  refine ho.operation.bind fun target => .bind .accept fun o => ?_
  cases o with
  | none => exact .pure _
  | some equals =>
    refine he.bind fun value => ?_
    cases target with
    | ident name => exact .pure _
    | _ => exact .bind (.report _ _) fun _ => .pure _

theorem primary (he : Composed expression) : Composed (primary expression) := by
  refine .bind .peek fun token => ?_
  split
  case h_7 =>
    exact .bind .advance fun _ => he.bind fun _ => .bind .expect fun _ => .pure _
  case h_8 => exact .fail _ _
  all_goals exact .bind .advance fun _ => .pure _

theorem prefixed (hd : Composed deeper) (he : Composed expression) :
    Composed (prefixed deeper expression) := by
  refine .bind .accept fun o => ?_
  cases o with
  | none => exact he.primary
  | some op => exact hd.bind fun _ => .pure _

theorem operand_expression (room : Nat) :
    Composed (Rule.operand room) ∧ Composed (Rule.expression room) := by
  induction room with
  | zero =>
    rw [Rule.operand, Rule.expression]
    exact ⟨Composed.tooDeep.prefixed .tooDeep, .tooDeep⟩
  | succ room ih =>
    have he : Composed (Rule.expression (room + 1)) := by
      rw [Rule.expression]
      exact .nested (ih.1.assignment ih.2)
    rw [operand_succ]
    exact ⟨(Composed.nested ih.1).prefixed he, he⟩

/-! ### Statements -/

theorem braced (hb : Composed block) {what : String} : Composed (braced block what) :=
  .bind .expect fun _ => hb

theorem optional (he : Composed expression) {stop : Kind} :
    Composed (optional expression stop) := by
  refine .bind .peek fun token => ?_
  split
  · exact .pure _
  · exact he.bind fun _ => .pure _

theorem parametersFrom (bound : List Token) : ∀ count, Composed (parametersFrom count bound) := by
  induction bound with
  | nil => exact fun count => .bind .expect fun _ => .pure _
  | cons _ more ih =>
    intro count
    unfold Rule.parametersFrom
    dsimp only
    split
    -- a parameter too many is reported before it is read
    on_goal 1 => refine .bind .peek fun _ => .bind (.report _ _) fun _ => ?_
    all_goals
      refine .bind .expect fun name => .bind .accept fun o => ?_
      cases o with
      | none => exact .pure _
      | some comma => exact (ih _).bind fun _ => .pure _

theorem parameters : Composed parameters := by
  refine .bind .peek fun token => ?_
  split
  · exact .pure _
  · exact .bind .ahead fun bound => parametersFrom bound 0

theorem function (hb : Composed block) (word : String) : Composed (function block word) :=
  .bind .expect fun _ => .bind .expect fun _ => .bind .parameters fun _ => .bind .expect fun _ =>
    .bind .expect fun _ => .bind (.outsideLoops hb) fun _ => .pure _

theorem superclass : Composed superclass := by
  refine .bind .accept fun o => ?_
  cases o with
  | none => exact .pure _
  | some less => exact .bind .expect fun _ => .pure _

theorem classDecl (hb : Composed block) : Composed (classDecl block) :=
  .bind .expect fun _ => .bind .superclass fun _ => .bind .expect fun _ =>
    .bind (hb.function _).many fun _ => .bind .expect fun _ => .pure _

theorem varDecl (he : Composed expression) : Composed (varDecl expression) := by
  refine .bind .expect fun name => .bind .accept fun o => ?_
  cases o with
  | none => exact .bind (.pure _) fun _ => .bind .expect fun _ => .pure _
  | some equals => exact .bind (he.map _) fun _ => .bind .expect fun _ => .pure _

theorem expressionStmt (he : Composed expression) : Composed (expressionStmt expression) :=
  he.bind fun _ => .bind .expect fun _ => .pure _

theorem printStmt (he : Composed expression) : Composed (printStmt expression) :=
  he.bind fun _ => .bind .expect fun _ => .pure _

theorem ifStmt (he : Composed expression) (hb : Composed block) :
    Composed (ifStmt expression block) := by
  refine .bind .expect fun _ => he.bind fun _ => .bind .expect fun _ => hb.braced.bind fun _ =>
    .bind .accept fun o => ?_
  cases o with
  | none => exact .pure _
  | some other => exact hb.braced.bind fun _ => .pure _

theorem whileStmt (he : Composed expression) (hb : Composed block) :
    Composed (whileStmt expression block) :=
  .bind .expect fun _ => he.bind fun _ => .bind .expect fun _ =>
    .bind (.inLoop hb.braced) fun _ => .pure _

theorem forInitial (he : Composed expression) : Composed (forInitial expression) := by
  refine .bind .peek fun token => ?_
  split
  · exact .bind .advance fun _ => .pure _
  · exact .bind .advance fun _ => he.varDecl.bind fun _ => .pure _
  · exact he.expressionStmt.bind fun _ => .pure _

theorem forStmt (he : Composed expression) (hb : Composed block) :
    Composed (forStmt expression block) :=
  .bind .expect fun _ => he.forInitial.bind fun _ => he.optional.bind fun _ =>
    .bind .expect fun _ => he.optional.bind fun _ => .bind .expect fun _ =>
    .bind (.inLoop hb.braced) fun _ => .pure _

theorem returnStmt (he : Composed expression) (keyword : Token) :
    Composed (returnStmt expression keyword) :=
  he.optional.bind fun _ => .bind .expect fun _ => .pure _

theorem jumpStmt (keyword : Token) (word : String) (stmt : Stmt) :
    Composed (jumpStmt keyword word stmt) := by
  refine .bind .loops fun n => ?_
  split
  · exact .fail _ _
  · exact .bind .expect fun _ => .pure _

theorem statement (he : Composed expression) (hb : Composed block) :
    Composed (statement expression block) := by
  refine .bind .peek fun token => ?_
  split
  · exact .bind .advance fun _ => he.printStmt
  · exact .bind .advance fun _ => he.ifStmt hb
  · exact .bind .advance fun _ => he.whileStmt hb
  · exact .bind .advance fun _ => he.forStmt hb
  · exact .bind .advance fun _ => he.returnStmt token
  · exact .bind .advance fun _ => jumpStmt token _ _
  · exact .bind .advance fun _ => jumpStmt token _ _
  · exact .bind .advance fun _ => hb.bind fun _ => .pure _
  · exact .bind .advance fun _ => .pure _
  · exact he.expressionStmt

theorem declaration (he : Composed expression) (hb : Composed block) :
    Composed (declaration expression block) := by
  refine .bind .peek fun token => ?_
  split
  · exact .bind .advance fun _ => hb.classDecl
  · exact .bind .advance fun _ => (hb.function _).bind fun _ => .pure _
  · exact .bind .advance fun _ => he.varDecl
  · exact he.statement hb

theorem recovered (he : Composed expression) (hb : Composed block) :
    Composed (recovered expression block) :=
  .recover (he.declaration hb)

theorem block_room (room : Nat) : Composed (Rule.block room) := by
  induction room with
  | zero => exact .tooDeep
  | succ room ih =>
    have he := (operand_expression room).2
    exact .nested <| (he.recovered ih).many.bind fun _ => .bind .expect fun _ => .pure _

theorem program : Composed program :=
  ((operand_expression maxDepth).2.recovered (block_room maxDepth)).many

end Composed

end Rule

/-! ### Places -/

namespace Cursor

/-- The place of a cursor with as much open as at another one. -/
def reopen (c before : Cursor) : Cursor := { c with depth := before.depth, loops := before.loops }

/-- A cursor that differs in how many tokens have been read before it. -/
def shift (n : Nat) (c : Cursor) : Cursor := { c with position := n + c.position }

variable {c c' before : Cursor} {ts : List Token}

theorem Passes.reopen_eq (h : c.Passes ts c') : c'.reopen c = c' := by
  obtain ⟨-, -, -, hdepth, hloops⟩ := h
  rw [reopen, ← hdepth, ← hloops]

theorem Passes.reopen (h : c.Passes ts c') (before : Cursor) :
    (c.reopen before).Passes ts (c'.reopen before) :=
  ⟨h.ahead, h.position, h.close, rfl, rfl⟩

theorem exists_passes_advance (c : Cursor) : ∃ ts, c.Passes ts c.advance := by
  obtain ⟨ahead, close, position, depth, loops⟩ := c
  cases ahead with
  | nil => exact ⟨[], passes_nil.2 rfl⟩
  | cons t rest => exact ⟨[t], rfl, rfl, rfl, rfl, rfl⟩

/-- What is resumed is the end of what was ahead. -/
theorem exists_append_resume (ahead : List Token) : ∃ ts, ahead = ts ++ resume ahead := by
  induction ahead using resume.induct with
  | case1 => exact ⟨[], rfl⟩
  | case2 t => exact ⟨[t], rfl⟩
  | case3 t next rest h => exact ⟨[t], by rw [resume, if_pos h, List.singleton_append]⟩
  | case4 t next rest h ih =>
    obtain ⟨ts, hts⟩ := ih
    exact ⟨t :: ts, by rw [resume, if_neg h, List.cons_append, ← hts]⟩

theorem exists_passes_resync (c : Cursor) : ∃ ts, c.Passes ts c.resync := by
  obtain ⟨ts, hts⟩ := exists_append_resume c.ahead
  have hlength := congrArg List.length hts
  rw [List.length_append] at hlength
  refine ⟨ts, hts, ?_, rfl, rfl, rfl⟩
  change c.position + (c.ahead.length - (resume c.ahead).length) = c.position + ts.length
  omega

@[simp] theorem advance_shift (n : Nat) (c : Cursor) : (c.shift n).advance = c.advance.shift n := by
  obtain ⟨ahead, close, position, depth, loops⟩ := c
  cases ahead <;> rfl

@[simp] theorem resync_shift (n : Nat) (c : Cursor) : (c.shift n).resync = c.resync.shift n := by
  simp [resync, shift, Nat.add_assoc]

end Cursor

namespace Step

variable {α : Type}

/-- The step with another cursor if it has a result. -/
def closeWith (change : Cursor → Cursor) (step : Step α) : Step α :=
  match step.outcome with
  | .ok _ => { step with cursor := change step.cursor }
  | .error _ => step

/-- The step with more tokens read before it. -/
def shift (n : Nat) (step : Step α) : Step α := { step with cursor := step.cursor.shift n }

end Step

namespace Rule

variable {α β : Type}

/-! ### What a rule leaves, by what its part leaves -/

section Leaves

variable {rule : Rule α} {next : α → Rule β} {c d : Cursor} {a : α} {fault : SyntaxFault}
  {reports : List SyntaxFault}

theorem bind_of_ok (h : rule c = ⟨.ok a, d, reports⟩) :
    (rule >>= next) c = { next a d with reports := reports ++ (next a d).reports } := by
  simp only [bind, h]

theorem bind_of_error (h : rule c = ⟨.error fault, d, reports⟩) :
    (rule >>= next) c = ⟨.error fault, d, reports⟩ := by
  simp only [bind, h]

/-- What is done before a rule is undone after it if it has a result. -/
theorem bracket_eq (before after : Cursor → Cursor) (rule : Rule α) (c : Cursor) :
    (update before >>= fun _ => rule >>= fun a => update after >>= fun _ => pure a) c =
      (rule (before c)).closeWith after := by
  change { (rule >>= fun a => update after >>= fun _ => pure a) (before c) with
    reports := [] ++ ((rule >>= fun a => update after >>= fun _ => pure a) (before c)).reports } = _
  rcases h : rule (before c) with ⟨fault | a, d, reports⟩
  · rw [bind_of_error h]
    rfl
  · rw [bind_of_ok h]
    simp [Step.closeWith, update, bind, pure]

theorem nested_eq (rule : Rule α) (c : Cursor) :
    nested rule c = (rule c.deeper).closeWith Cursor.shallower :=
  bracket_eq Cursor.deeper Cursor.shallower rule c

theorem inLoop_eq (rule : Rule α) (c : Cursor) :
    inLoop rule c =
      (rule (c.withLoops (c.loops + 1))).closeWith fun d => d.withLoops (d.loops - 1) :=
  bracket_eq (fun c => c.withLoops (c.loops + 1)) (fun d => d.withLoops (d.loops - 1)) rule c

theorem outsideLoops_eq (rule : Rule α) (c : Cursor) :
    outsideLoops rule c = (rule (c.withLoops 0)).closeWith fun d => d.withLoops c.loops :=
  bracket_eq (fun c => c.withLoops 0) (fun d => d.withLoops c.loops) rule c

end Leaves

/-- The rule passes tokens, also when it fails. If it has a result, it closes what it opens. -/
structure Forward (rule : Rule α) : Prop where
  passes : ∀ c : Cursor, ∃ ts, c.Passes ts ((rule c).cursor.reopen c)
  closes : ∀ c a, (rule c).outcome = .ok a →
    (rule c).cursor.depth = c.depth ∧ (rule c).cursor.loops = c.loops

theorem Forward.of_passes {rule : Rule α} (h : ∀ c : Cursor, ∃ ts, c.Passes ts (rule c).cursor) :
    Forward rule where
  passes c := by
    obtain ⟨ts, hts⟩ := h c
    exact ⟨ts, hts.reopen_eq.symm ▸ hts⟩
  closes c _ _ := by
    obtain ⟨ts, hts⟩ := h c
    exact ⟨hts.depth, hts.loops⟩

theorem Forward.of_cursor_eq {rule : Rule α} (h : ∀ c, (rule c).cursor = c) : Forward rule :=
  .of_passes fun c => ⟨[], Cursor.passes_nil.2 (h c)⟩

/-- A rule with a result stands behind the tokens it has passed. -/
theorem Forward.passes_of_ok {rule : Rule α} (h : Forward rule) {c : Cursor} {a : α}
    (ha : (rule c).outcome = .ok a) : ∃ ts, c.Passes ts (rule c).cursor := by
  obtain ⟨ts, hts⟩ := h.passes c
  obtain ⟨hdepth, hloops⟩ := h.closes c a ha
  rw [Cursor.reopen, ← hdepth, ← hloops] at hts
  exact ⟨ts, hts⟩

/-- Two rules in sequence pass the tokens of both. -/
theorem Forward.bind {rule : Rule α} {next : α → Rule β} (hr : Forward rule)
    (hn : ∀ a, Forward (next a)) : Forward (rule >>= next) := by
  constructor
  · intro c
    have hpasses := hr.passes c
    rcases h : rule c with ⟨fault | a, d, reports⟩
    · rw [h] at hpasses
      rw [bind_of_error h]
      exact hpasses
    · have hok : (rule c).outcome = .ok a := by rw [h]
      obtain ⟨ts, hts⟩ := hr.passes_of_ok hok
      rw [h] at hts
      obtain ⟨us, hus⟩ := (hn a).passes d
      rw [Cursor.reopen, hts.depth, hts.loops] at hus
      rw [bind_of_ok h]
      exact ⟨ts ++ us, hts.trans hus⟩
  · intro c b hb
    rcases h : rule c with ⟨fault | a, d, reports⟩
    · rw [bind_of_error h] at hb
      cases hb
    · have hok : (rule c).outcome = .ok a := by rw [h]
      have hfirst := hr.closes c a hok
      rw [h] at hfirst
      rw [bind_of_ok h] at hb ⊢
      have hsecond := (hn a).closes d b hb
      exact ⟨hsecond.1.trans hfirst.1, hsecond.2.trans hfirst.2⟩

/-- A rule around which something is opened and closed again passes what the rule passes. -/
theorem Forward.bracket {rule outer : Rule α} {before : Cursor → Cursor}
    {after : Cursor → Cursor → Cursor} (hr : Forward rule)
    (heq : ∀ c, outer c = (rule (before c)).closeWith (after c))
    (hbefore : ∀ c, (before c).reopen c = c) (hafter : ∀ c d, (after c d).reopen c = d.reopen c)
    (hcloses : ∀ c d, d.depth = (before c).depth → d.loops = (before c).loops →
      (after c d).depth = c.depth ∧ (after c d).loops = c.loops) : Forward outer := by
  constructor
  · intro c
    obtain ⟨ts, hts⟩ := hr.passes (before c)
    have hpasses := hts.reopen c
    rw [hbefore] at hpasses
    refine ⟨ts, ?_⟩
    rw [heq, Step.closeWith]
    split
    · rw [hafter]
      exact hpasses
    · exact hpasses
  · intro c a ha
    rw [heq, Step.closeWith] at ha ⊢
    split at ha
    · next x hx =>
      obtain ⟨hdepth, hloops⟩ := hr.closes (before c) x hx
      exact hcloses c _ hdepth hloops
    · next fault hfault =>
      rw [hfault] at ha
      cases ha

theorem forward_tooDeep : Forward (tooDeep : Rule α) where
  passes c := ⟨[], Cursor.passes_nil.2 rfl⟩
  closes c a ha := by cases ha

theorem Forward.recover {rule : Rule α} {instead : SyntaxFault → α} (hr : Forward rule) :
    Forward (recover rule instead) := by
  apply Forward.of_passes
  intro c
  unfold Rule.recover
  rcases h : rule c with ⟨fault | a, d, reports⟩
  · obtain ⟨ts, hts⟩ := hr.passes c
    obtain ⟨us, hus⟩ := (d.reopen c).exists_passes_resync
    rw [h] at hts
    exact ⟨ts ++ us, hts.trans hus⟩
  · have hok : (rule c).outcome = .ok a := by rw [h]
    obtain ⟨ts, hts⟩ := hr.passes_of_ok hok
    rw [h] at hts
    exact ⟨ts, hts⟩

/-- Every rule passes tokens and closes what it opens. -/
theorem Composed.forward {rule : Rule α} (h : Composed rule) : Forward rule := by
  induction h with
  | pure a => exact .of_cursor_eq fun c => rfl
  | bind _ _ hr hn => exact hr.bind hn
  | peek => exact .of_cursor_eq fun c => rfl
  | ahead => exact .of_cursor_eq fun c => rfl
  | loops => exact .of_cursor_eq fun c => rfl
  | advance => exact .of_passes Cursor.exists_passes_advance
  | report token error => exact .of_cursor_eq fun c => rfl
  | fail token error => exact .of_cursor_eq fun c => rfl
  | tooDeep => exact forward_tooDeep
  | nested _ hr =>
    refine hr.bracket (nested_eq _) (fun c => rfl) (fun c d => rfl) fun c d hdepth hloops => ?_
    exact ⟨by simp [Cursor.shallower, hdepth, Cursor.deeper], hloops⟩
  | inLoop _ hr =>
    refine hr.bracket (inLoop_eq _) (fun c => rfl) (fun c d => rfl) fun c d hdepth hloops => ?_
    exact ⟨hdepth, by simp [Cursor.withLoops, hloops]⟩
  | outsideLoops _ hr =>
    refine hr.bracket (outsideLoops_eq _) (fun c => rfl) (fun c d => rfl) fun c d hdepth _ => ?_
    exact ⟨hdepth, rfl⟩
  | recover _ hr => exact hr.recover

theorem shift_bracket {rule outer : Rule α} {before : Cursor → Cursor}
    {after : Cursor → Cursor → Cursor} {n : Nat} (hr : ∀ c, rule (c.shift n) = (rule c).shift n)
    (heq : ∀ c, outer c = (rule (before c)).closeWith (after c))
    (hbefore : ∀ c : Cursor, before (c.shift n) = (before c).shift n)
    (hafter : ∀ c d : Cursor, after (c.shift n) (d.shift n) = (after c d).shift n) (c : Cursor) :
    outer (c.shift n) = (outer c).shift n := by
  rw [heq, heq, hbefore, hr]
  rcases rule (before c) with ⟨fault | a, d, reports⟩
  · rfl
  · simp only [Step.closeWith, Step.shift, hafter]

/-- A rule reads the same wherever the tokens before it are counted from. -/
theorem Composed.shift {rule : Rule α} (h : Composed rule) (n : Nat) (c : Cursor) :
    rule (c.shift n) = (rule c).shift n := by
  induction h generalizing c with
  | @bind α β rule next _ _ hr hn =>
    have hfirst := hr c
    rcases hrule : rule c with ⟨fault | a, d, reports⟩
    · rw [hrule] at hfirst
      rw [bind_of_error hrule, bind_of_error hfirst]
      rfl
    · rw [hrule] at hfirst
      rw [bind_of_ok hrule, bind_of_ok hfirst, hn]
      rfl
  | advance => simp [Rule.advance, Step.shift]
  | nested _ hr => exact shift_bracket hr (nested_eq _) (fun c => rfl) (fun c d => rfl) c
  | inLoop _ hr => exact shift_bracket hr (inLoop_eq _) (fun c => rfl) (fun c d => rfl) c
  | outsideLoops _ hr =>
    exact shift_bracket hr (outsideLoops_eq _) (fun c => rfl) (fun c d => rfl) c
  | @recover α rule instead _ hr =>
    have hfirst := hr c
    unfold Rule.recover
    rw [hfirst]
    rcases hrule : rule c with ⟨fault | a, d, reports⟩
    · have hresync := (d.reopen c).resync_shift n
      exact congrArg (fun e => (⟨.ok (instead fault), e, reports⟩ : Step α)) hresync
    · rfl
  | _ => rfl

end Rule

end Lox

import Lox.Rule.Statement
import Lox.Proofs.PairedRuns
import Lox.Proofs.RuleParts

/-!
# Two readings side by side

Two lists of tokens that differ in lines and in the spelling of logical operators only are
read side by side. No rule of the grammar looks at what they differ in, and neither does
recovery: both readings pass tokens in step, fail at the same places for the same reasons
and resume at the same places. Hence the programs are alike and the faults are the same,
up to the tokens they are about.
-/
namespace Lox

/-! ### Twins -/

namespace Kind

variable {kind kind' stop : Kind}

/-- A function that takes both ways to write an operator alike takes twins alike. -/
theorem Twin.congr {γ : Sort*} (h : kind.Twin kind') (f : Kind → γ) (hand : f .andAnd = f .kwAnd)
    (hor : f .orOr = f .kwOr) : f kind = f kind' := by
  have hconjunction : ∀ k ∈ conjunctions, f k = f .kwAnd := by simp [conjunctions, hand]
  have hdisjunction : ∀ k ∈ disjunctions, f k = f .kwOr := by simp [disjunctions, hor]
  cases h with
  | same => rfl
  | conjunction h h' => rw [hconjunction _ h, hconjunction _ h']
  | disjunction h h' => rw [hdisjunction _ h, hdisjunction _ h']

/-- What does not tell apart the two ways to write an operator passes on to twins. -/
@[elab_as_elim]
theorem Twin.transfer {motive : Kind → Prop} (h : kind.Twin kind')
    (hand : motive .andAnd = motive .kwAnd) (hor : motive .orOr = motive .kwOr)
    (hsame : motive kind) : motive kind' :=
  h.congr motive hand hor ▸ hsame

theorem Twin.eq_iff (h : kind.Twin kind') (hstop : ¬stop.IsLogical) :
    kind = stop ↔ kind' = stop := by
  rcases h.eq_or_logical with rfl | ⟨hlogical, hlogical'⟩
  · rfl
  · exact iff_of_false (fun heq => hstop (heq ▸ hlogical)) fun heq => hstop (heq ▸ hlogical')

end Kind

namespace Token

/-- The spellings of a conjunction: its class and its text. -/
def conjunctions : List (Kind × String) := [(.andAnd, "&&"), (.kwAnd, "and")]

/-- The spellings of a disjunction: its class and its text. -/
def disjunctions : List (Kind × String) := [(.orOr, "||"), (.kwOr, "or")]

/-- Tokens that differ in their lines at most, or spell the same logical operator. -/
inductive Twin : Token → Token → Prop
  | same {s t : Token} : s.SameText t → Twin s t
  | conjunction {s t : Token} : (s.kind, s.lexeme) ∈ conjunctions →
      (t.kind, t.lexeme) ∈ conjunctions → Twin s t
  | disjunction {s t : Token} : (s.kind, s.lexeme) ∈ disjunctions →
      (t.kind, t.lexeme) ∈ disjunctions → Twin s t

variable {s t : Token}

instance : DecidableRel SameText := fun s t =>
  decidable_of_iff (s.kind = t.kind ∧ s.lexeme = t.lexeme ∧ s.literal = t.literal)
    ⟨fun ⟨hkind, hlexeme, hliteral⟩ => ⟨hkind, hlexeme, hliteral⟩,
      fun h => ⟨h.kind, h.lexeme, h.literal⟩⟩

theorem twin_iff : s.Twin t ↔ s.SameText t ∨
    (s.kind, s.lexeme) ∈ conjunctions ∧ (t.kind, t.lexeme) ∈ conjunctions ∨
    (s.kind, s.lexeme) ∈ disjunctions ∧ (t.kind, t.lexeme) ∈ disjunctions := by
  refine ⟨fun h => ?_, fun h => ?_⟩
  · cases h with
    | same h => exact .inl h
    | conjunction h h' => exact .inr (.inl ⟨h, h'⟩)
    | disjunction h h' => exact .inr (.inr ⟨h, h'⟩)
  · rcases h with h | ⟨h, h'⟩ | ⟨h, h'⟩
    · exact .same h
    · exact .conjunction h h'
    · exact .disjunction h h'

instance : DecidableRel Twin := fun _ _ => decidable_of_iff _ twin_iff.symm

theorem kind_mem_conjunctions (h : (t.kind, t.lexeme) ∈ conjunctions) :
    t.kind ∈ Kind.conjunctions :=
  List.mem_map_of_mem (f := Prod.fst) h

theorem kind_mem_disjunctions (h : (t.kind, t.lexeme) ∈ disjunctions) :
    t.kind ∈ Kind.disjunctions :=
  List.mem_map_of_mem (f := Prod.fst) h

theorem Twin.kind (h : s.Twin t) : s.kind.Twin t.kind := by
  cases h with
  | same h => exact h.kind ▸ .same _
  | conjunction h h' => exact .conjunction (kind_mem_conjunctions h) (kind_mem_conjunctions h')
  | disjunction h h' => exact .disjunction (kind_mem_disjunctions h) (kind_mem_disjunctions h')

/-- Only a logical operator has two spellings. -/
theorem Twin.sameText (h : s.Twin t) (hkind : ¬s.kind.IsLogical) : s.SameText t := by
  cases h with
  | same h => exact h
  | conjunction h => exact absurd (.inl (kind_mem_conjunctions h)) hkind
  | disjunction h => exact absurd (.inr (kind_mem_disjunctions h)) hkind

theorem Twin.sameName (h : s.Twin t) (hkind : ¬s.kind.IsLogical) : s.SameName Twin t :=
  ⟨h, (h.sameText hkind).lexeme⟩

end Token

/-- Faults of the same sort, about twins. -/
structure SyntaxFault.Twin (fault fault' : SyntaxFault) : Prop where
  token : fault.token.Twin fault'.token
  error : fault.error = fault'.error

/-- Places in lists of tokens that are twins, one by one. -/
structure Cursor.Twin (c d : Cursor) : Prop where
  ahead : List.Forall₂ Token.Twin c.ahead d.ahead
  close : c.close.Twin d.close
  position : c.position = d.position
  depth : c.depth = d.depth
  loops : c.loops = d.loops

namespace Cursor.Twin

variable {c d : Cursor} (h : c.Twin d)

include h

theorem peek : c.peek.Twin d.peek := by
  obtain ⟨hahead, hclose, -, -, -⟩ := h
  unfold Cursor.peek
  generalize c.ahead = ahead, d.ahead = ahead' at hahead ⊢
  cases hahead with
  | nil => exact hclose
  | cons ht => exact ht

theorem advance : c.advance.Twin d.advance := by
  obtain ⟨hahead, hclose, hposition, hdepth, hloops⟩ := h
  obtain ⟨ahead, close, position, depth, loops⟩ := c
  obtain ⟨ahead', close', position', depth', loops'⟩ := d
  cases hahead with
  | nil => exact ⟨.nil, hclose, hposition, hdepth, hloops⟩
  | cons _ hrest => exact ⟨hrest, hclose, congrArg (· + 1) hposition, hdepth, hloops⟩

omit h in
theorem stops_eq {s s' t t' : Token} (hpassed : s.Twin s') (hnext : t.Twin t') :
    (decide (s.kind = .semicolon) || t.kind.startsStatement) =
      (decide (s'.kind = .semicolon) || t'.kind.startsStatement) := by
  have hsemicolon := hpassed.kind.eq_iff (show ¬Kind.IsLogical .semicolon by decide)
  rw [decide_eq_decide.2 hsemicolon, hnext.kind.congr Kind.startsStatement rfl rfl]

omit h in
/-- Reading resumes at the same place. -/
theorem resume {ts us : List Token} (h : List.Forall₂ Token.Twin ts us) :
    List.Forall₂ Token.Twin (Cursor.resume ts) (Cursor.resume us) := by
  induction ts using Cursor.resume.induct generalizing us with
  | case1 => cases h; exact .nil
  | case2 => rcases h with - | ⟨-, - | -⟩; exact .nil
  | case3 passed next rest hstops =>
    obtain - | ⟨hpassed, hmore⟩ := h
    obtain - | ⟨hnext, hrest⟩ := id hmore
    rw [Cursor.resume, if_pos hstops, Cursor.resume,
      if_pos (stops_eq hpassed hnext ▸ hstops)]
    exact hmore
  | case4 passed next rest hgoes ih =>
    obtain - | ⟨hpassed, hmore⟩ := h
    obtain - | ⟨hnext, hrest⟩ := id hmore
    rw [Cursor.resume, if_neg hgoes, Cursor.resume,
      if_neg (stops_eq hpassed hnext ▸ hgoes)]
    exact ih hmore

theorem resync : c.resync.Twin d.resync where
  ahead := resume h.ahead
  close := h.close
  position := by
    simp only [Cursor.resync, h.position, h.ahead.length_eq, (resume h.ahead).length_eq]
  depth := h.depth
  loops := h.loops

end Cursor.Twin

/-! ### Rules in step -/

variable {α β α' β' : Type}

/-- Related results or twin faults, at twin places, with twin reports. -/
inductive Step.Twin (R : α → α' → Prop) : Step α → Step α' → Prop
  | ok {a a' c d reports reports'} : R a a' → c.Twin d →
      List.Forall₂ SyntaxFault.Twin reports reports' →
      Twin R ⟨.ok a, c, reports⟩ ⟨.ok a', d, reports'⟩
  | error {fault fault' c d reports reports'} : fault.Twin fault' → c.Twin d →
      List.Forall₂ SyntaxFault.Twin reports reports' →
      Twin R ⟨.error fault, c, reports⟩ ⟨.error fault', d, reports'⟩

theorem Step.Twin.closeWith {R : α → α' → Prop} {step : Step α} {step' : Step α'}
    (h : step.Twin R step') {change change' : Cursor → Cursor}
    (hchange : ∀ {c d : Cursor}, c.Twin d → (change c).Twin (change' d)) :
    (step.closeWith change).Twin R (step'.closeWith change') := by
  cases h with
  | ok ha hc hreports => exact .ok ha (hchange hc) hreports
  | error hfault hc hreports => exact .error hfault hc hreports

namespace Rule

/-- From twin places the rules take twin steps. -/
def Twins (R : α → α' → Prop) (rule : Rule α) (rule' : Rule α') : Prop :=
  ∀ c d : Cursor, c.Twin d → (rule c).Twin R (rule' d)

variable {R : α → α' → Prop} {S : β → β' → Prop}

theorem twins_pure {a : α} {a' : α'} (h : R a a') : Twins R (pure a) (pure a') :=
  fun _ _ hc => .ok h hc .nil

theorem Twins.bind {rule : Rule α} {rule' : Rule α'} {next : α → Rule β} {next' : α' → Rule β'}
    (hr : Twins R rule rule') (hn : ∀ a a', R a a' → Twins S (next a) (next' a')) :
    Twins S (rule >>= next) (rule' >>= next') := by
  intro c d hc
  have hstep := hr c d hc
  generalize hrule : rule c = step at hstep
  generalize hrule' : rule' d = step' at hstep
  cases hstep with
  | error hfault hleft hreports =>
    rw [bind_of_error hrule, bind_of_error hrule']
    exact .error hfault hleft hreports
  | ok ha hleft hreports =>
    rw [bind_of_ok hrule, bind_of_ok hrule']
    have hnext := hn _ _ ha _ _ hleft
    generalize next _ _ = step at hnext ⊢
    generalize next' _ _ = step' at hnext ⊢
    cases hnext with
    | ok hb hleft hmore => exact .ok hb hleft (List.rel_append hreports hmore)
    | error hfault hleft hmore => exact .error hfault hleft (List.rel_append hreports hmore)

theorem twins_ite {p q : Prop} [Decidable p] [Decidable q] {first second : Rule α}
    {first' second' : Rule α'} (h : p ↔ q) (hf : Twins R first first')
    (hs : Twins R second second') :
    Twins R (if p then first else second) (if q then first' else second') := by
  by_cases hp : p
  · rw [if_pos hp, if_pos (h.1 hp)]
    exact hf
  · rw [if_neg hp, if_neg (hp ∘ h.2)]
    exact hs

theorem twins_peek : Twins Token.Twin peek peek := fun _ _ hc => .ok hc.peek hc .nil

theorem twins_ahead : Twins (List.Forall₂ Token.Twin) ahead ahead :=
  fun _ _ hc => .ok hc.ahead hc .nil

theorem twins_advance : Twins Eq advance advance := fun _ _ hc => .ok rfl hc.advance .nil

theorem twins_loops : Twins Eq loops loops := fun _ _ hc => .ok hc.loops hc .nil

variable {t t' : Token}

theorem twins_report (h : t.Twin t') (error : SyntaxError) :
    Twins Eq (report t error) (report t' error) :=
  fun _ _ hc => .ok rfl hc (.cons ⟨h, rfl⟩ .nil)

theorem twins_fail (h : t.Twin t') (error : SyntaxError) :
    Twins R (fail t error) (fail t' error) :=
  fun _ _ hc => .error ⟨h, rfl⟩ hc (.cons ⟨h, rfl⟩ .nil)

/-- One token is passed before going on. -/
theorem Twins.behind {next : Rule α} {next' : Rule α'} (h : Twins R next next') :
    Twins R (advance >>= fun _ => next) (advance >>= fun _ => next') :=
  twins_advance.bind fun _ _ _ => h

theorem twins_accept {wanted : Kind → Bool} (hand : wanted .andAnd = wanted .kwAnd)
    (hor : wanted .orOr = wanted .kwOr) :
    Twins (Option.Rel Token.Twin) (accept wanted) (accept wanted) := by
  refine twins_peek.bind fun t t' ht => ?_
  refine twins_ite (by rw [ht.kind.congr wanted hand hor]) ?_ (twins_pure .none)
  exact (twins_pure (.some ht)).behind

theorem twins_expect {kind : Kind} (hkind : ¬kind.IsLogical) (what : String) :
    Twins (Token.SameName Token.Twin) (expect kind what) (expect kind what) := by
  refine twins_peek.bind fun t t' ht => ?_
  by_cases hpeek : t.kind = kind
  · rw [if_pos hpeek, if_pos ((ht.kind.eq_iff hkind).1 hpeek)]
    exact (twins_pure (ht.sameName (hpeek ▸ hkind))).behind
  · rw [if_neg hpeek, if_neg (hpeek ∘ (ht.kind.eq_iff hkind).2)]
    exact twins_fail ht _

theorem twins_tooDeep : Twins R (tooDeep : Rule α) (tooDeep : Rule α') := by
  have henter : Twins Eq enter enter := fun _ _ hc =>
    .ok rfl ⟨hc.ahead, hc.close, hc.position, congrArg (· + 1) hc.depth, hc.loops⟩ .nil
  exact henter.bind fun _ _ _ => twins_peek.bind fun _ _ ht => twins_fail ht _

section Around

variable {rule : Rule α} {rule' : Rule α'} (h : Twins R rule rule')

include h

theorem Twins.nested : Twins R (nested rule) (nested rule') := by
  intro c d hc
  rw [nested_eq, nested_eq]
  refine (h _ _ ?_).closeWith fun hleft => ?_
  · exact ⟨hc.ahead, hc.close, hc.position, congrArg (· + 1) hc.depth, hc.loops⟩
  · exact ⟨hleft.ahead, hleft.close, hleft.position, congrArg (· - 1) hleft.depth, hleft.loops⟩

theorem Twins.inLoop : Twins R (inLoop rule) (inLoop rule') := by
  intro c d hc
  rw [inLoop_eq, inLoop_eq]
  refine (h _ _ ?_).closeWith fun hleft => ?_
  · exact ⟨hc.ahead, hc.close, hc.position, hc.depth, congrArg (· + 1) hc.loops⟩
  · exact ⟨hleft.ahead, hleft.close, hleft.position, hleft.depth, congrArg (· - 1) hleft.loops⟩

theorem Twins.outsideLoops : Twins R (outsideLoops rule) (outsideLoops rule') := by
  intro c d hc
  rw [outsideLoops_eq, outsideLoops_eq]
  refine (h _ _ ?_).closeWith fun hleft => ?_
  · exact ⟨hc.ahead, hc.close, hc.position, hc.depth, rfl⟩
  · exact ⟨hleft.ahead, hleft.close, hleft.position, hleft.depth, hc.loops⟩

theorem Twins.recover {instead : SyntaxFault → α} {instead' : SyntaxFault → α'}
    (hinstead : ∀ fault fault', fault.Twin fault' → R (instead fault) (instead' fault')) :
    Twins R (recover rule instead) (recover rule' instead') := by
  intro c d hc
  have hstep := h c d hc
  unfold Rule.recover
  generalize rule c = step at hstep ⊢
  generalize rule' d = step' at hstep ⊢
  cases hstep with
  | ok ha hleft hreports => exact .ok ha hleft hreports
  | error hfault hleft hreports =>
    refine .ok (hinstead _ _ hfault) (Cursor.Twin.resync ?_) hreports
    exact ⟨hleft.ahead, hleft.close, hleft.position, hc.depth, hc.loops⟩

theorem Twins.manyUntil {stop : Kind} (hstop : ¬stop.IsLogical) {bound bound' : List Token}
    (hbound : List.Forall₂ Token.Twin bound bound') :
    Twins (List.Forall₂ R) (manyUntil stop rule bound) (manyUntil stop rule' bound') := by
  induction hbound with
  | nil => exact twins_pure .nil
  | cons _ _ ih =>
    refine twins_peek.bind fun t t' ht => ?_
    refine twins_ite ?_ (twins_pure .nil) ?_
    · exact or_congr (ht.kind.eq_iff hstop) (ht.kind.eq_iff (by decide))
    · exact h.bind fun _ _ ha => ih.bind fun _ _ hmore => twins_pure (.cons ha hmore)

theorem Twins.many {stop : Kind} (hstop : ¬stop.IsLogical) :
    Twins (List.Forall₂ R) (many stop rule) (many stop rule') :=
  twins_ahead.bind fun _ _ hbound => h.manyUntil hstop hbound

end Around

/-! ### Expressions -/

/-- Both rules read expressions that are alike. -/
abbrev TwinExpr : Rule Expr → Rule Expr → Prop := Twins (Expr.Like Token.Twin)

/-- Both rules read statements that are alike. -/
abbrev TwinStmt : Rule Stmt → Rule Stmt → Prop := Twins (Stmt.Like Token.Twin)

/-- Both rules read blocks that are alike. -/
abbrev TwinBlock : Rule (List Stmt) → Rule (List Stmt) → Prop := Twins (Stmt.LikeAll Token.Twin)

/-- A level that takes both spellings of an operator and makes expressions that are alike. -/
structure Level.Fair (level : Level) : Prop where
  conjunction : level.wanted .andAnd = level.wanted .kwAnd
  disjunction : level.wanted .orOr = level.wanted .kwOr
  make : ∀ {left left' op op' right right'}, left.Like Token.Twin left' → op.Twin op' →
    right.Like Token.Twin right' →
    (level.make left op right).Like Token.Twin (level.make left' op' right')

theorem fair_of_mem_levels {level : Level} (h : level ∈ levels) : level.Fair := by
  simp only [levels, List.mem_cons, List.not_mem_nil, or_false] at h
  rcases h with rfl | rfl | rfl | rfl | rfl | rfl
  · exact ⟨rfl, rfl, .logical⟩
  · exact ⟨rfl, rfl, .logical⟩
  all_goals exact ⟨rfl, rfl, .binary⟩

section Expressions

variable {operand operand' deeper deeper' expression expression' : Rule Expr}

theorem Twins.chainFrom {level : Level} (hlevel : level.Fair) (ho : TwinExpr operand operand')
    {bound bound' : List Token} (hbound : List.Forall₂ Token.Twin bound bound') :
    ∀ left left', left.Like Token.Twin left' →
      TwinExpr (chainFrom level operand left bound) (chainFrom level operand' left' bound') := by
  induction hbound with
  | nil => exact fun left left' hleft => twins_pure hleft
  | cons _ _ ih =>
    intro left left' hleft
    refine (twins_accept hlevel.conjunction hlevel.disjunction).bind fun o o' h => ?_
    cases h with
    | none => exact twins_pure hleft
    | some hop => exact ho.bind fun right right' hright => ih _ _ (hlevel.make hleft hop hright)

theorem Twins.chain {level : Level} (hlevel : level.Fair) (ho : TwinExpr operand operand') :
    TwinExpr (chain level operand) (chain level operand') :=
  ho.bind fun left left' hleft => twins_ahead.bind fun _ _ hbound =>
    ho.chainFrom hlevel hbound left left' hleft

theorem Twins.operation (ho : TwinExpr operand operand') :
    TwinExpr (operation operand) (operation operand') := by
  have hall : ∀ table ⊆ levels,
      TwinExpr (table.foldr Rule.chain operand) (table.foldr Rule.chain operand') := by
    intro table htable
    induction table with
    | nil => exact ho
    | cons level rest ih =>
      obtain ⟨hlevel, hrest⟩ := List.cons_subset.1 htable
      exact (ih hrest).chain (fair_of_mem_levels hlevel)
  exact hall levels (List.Subset.refl _)

theorem Twins.assignment (ho : TwinExpr operand operand') (he : TwinExpr expression expression') :
    TwinExpr (assignment operand expression) (assignment operand' expression') := by
  refine ho.operation.bind fun target target' htarget => ?_
  refine (twins_accept rfl rfl).bind fun o o' h => ?_
  cases h with
  | none => exact twins_pure htarget
  | some hequals =>
    refine he.bind fun value value' hvalue => ?_
    have hreport := (twins_report hequals .assignmentTarget).bind fun _ _ _ => twins_pure htarget
    cases htarget with
    | ident hname => exact twins_pure (.assign hname hvalue)
    | _ => exact hreport

theorem Twins.primary (he : TwinExpr expression expression') :
    TwinExpr (primary expression) (primary expression') := by
  refine twins_peek.bind fun t t' ht => ?_
  have hkind := ht.kind
  have hname := ht.sameName
  have htext := ht.sameText
  generalize t'.kind = kind' at hkind ⊢
  generalize t.kind = kind at hkind hname htext ⊢
  refine hkind.transfer rfl rfl ?_
  cases kind with
  | kwFalse | kwTrue | kwNil => exact (twins_pure (.literal _)).behind
  | number =>
    rw [numberLiteral, numberLiteral, (htext (by decide)).literal]
    exact (twins_pure (.literal _)).behind
  | string =>
    rw [(htext (by decide)).literal]
    exact (twins_pure (.literal _)).behind
  | identifier => exact (twins_pure (.ident (hname (by decide)))).behind
  | leftParen =>
    refine Twins.behind (he.bind fun inner inner' hinner => ?_)
    exact (twins_expect (by decide) _).bind fun _ _ _ => twins_pure (.grouping hinner)
  | _ => exact twins_fail ht _

theorem Twins.prefixed (hd : TwinExpr deeper deeper') (he : TwinExpr expression expression') :
    TwinExpr (prefixed deeper expression) (prefixed deeper' expression') := by
  refine (twins_accept rfl rfl).bind fun o o' h => ?_
  cases h with
  | none => exact he.primary
  | some hop => exact hd.bind fun right right' hright => twins_pure (.unary hop hright)

theorem twins_operand_expression (room : Nat) :
    TwinExpr (Rule.operand room) (Rule.operand room) ∧
      TwinExpr (Rule.expression room) (Rule.expression room) := by
  induction room with
  | zero =>
    rw [Rule.operand, Rule.expression]
    exact ⟨Twins.prefixed twins_tooDeep twins_tooDeep, twins_tooDeep⟩
  | succ room ih =>
    have he : TwinExpr (Rule.expression (room + 1)) (Rule.expression (room + 1)) := by
      rw [Rule.expression]
      exact (ih.1.assignment ih.2).nested
    rw [operand_succ]
    exact ⟨ih.1.nested.prefixed he, he⟩

end Expressions

/-! ### Statements -/

section Statements

variable {expression expression' : Rule Expr} {block block' : Rule (List Stmt)}

theorem Twins.braced (hb : TwinBlock block block') (what : String) :
    TwinBlock (braced block what) (braced block' what) :=
  (twins_expect (by decide) _).bind fun _ _ _ => hb

theorem Twins.optional (he : TwinExpr expression expression') {stop : Kind}
    (hstop : ¬stop.IsLogical) :
    Twins (Expr.LikeOptional Token.Twin) (optional expression stop)
      (optional expression' stop) := by
  refine twins_peek.bind fun t t' ht => ?_
  refine twins_ite (ht.kind.eq_iff hstop) (twins_pure .none) ?_
  exact he.bind fun e e' h => twins_pure (.some h)

theorem twins_parametersFrom {bound bound' : List Token}
    (hbound : List.Forall₂ Token.Twin bound bound') :
    ∀ count, Twins (List.Forall₂ (Token.SameName Token.Twin)) (parametersFrom count bound)
      (parametersFrom count bound') := by
  induction hbound with
  | nil =>
    exact fun count => (twins_expect (by decide) _).bind fun _ _ hname =>
      twins_pure (.cons hname .nil)
  | cons _ _ ih =>
    intro count
    unfold Rule.parametersFrom
    dsimp only
    split
    -- a parameter too many is reported before it is read
    on_goal 1 =>
      refine twins_peek.bind fun _ _ ht => (twins_report ht _).bind fun _ _ _ => ?_
    all_goals
      refine (twins_expect (by decide) _).bind fun name name' hname => ?_
      refine (twins_accept rfl rfl).bind fun o o' h => ?_
      cases h with
      | none => exact twins_pure (.cons hname .nil)
      | some hcomma => exact (ih _).bind fun _ _ hmore => twins_pure (.cons hname hmore)

theorem twins_parameters :
    Twins (List.Forall₂ (Token.SameName Token.Twin)) parameters parameters := by
  refine twins_peek.bind fun t t' ht => ?_
  refine twins_ite (ht.kind.eq_iff (by decide)) (twins_pure .nil) ?_
  exact twins_ahead.bind fun _ _ hbound => twins_parametersFrom hbound 0

theorem Twins.function (hb : TwinBlock block block') (word : String) :
    Twins (Function.Like Token.Twin) (function block word) (function block' word) :=
  (twins_expect (by decide) _).bind fun _ _ hname =>
    (twins_expect (by decide) _).bind fun _ _ _ =>
    twins_parameters.bind fun _ _ hparams =>
    (twins_expect (by decide) _).bind fun _ _ _ =>
    (twins_expect (by decide) _).bind fun _ _ _ =>
    hb.outsideLoops.bind fun _ _ hbody => twins_pure (.mk hname hparams hbody)

theorem twins_superclass :
    Twins (Option.Rel (Token.SameName Token.Twin)) superclass superclass := by
  refine (twins_accept rfl rfl).bind fun o o' h => ?_
  cases h with
  | none => exact twins_pure .none
  | some hless => exact (twins_expect (by decide) _).bind fun _ _ hname => twins_pure (.some hname)

theorem Twins.classDecl (hb : TwinBlock block block') :
    TwinStmt (classDecl block) (classDecl block') :=
  (twins_expect (by decide) _).bind fun _ _ hname => twins_superclass.bind fun _ _ hparent =>
    (twins_expect (by decide) _).bind fun _ _ _ =>
    ((hb.function _).many (by decide)).bind fun _ _ hmethods =>
    (twins_expect (by decide) _).bind fun _ _ _ => twins_pure (.classDecl hname hparent hmethods)

theorem Twins.varDecl (he : TwinExpr expression expression') :
    TwinStmt (varDecl expression) (varDecl expression') := by
  refine (twins_expect (by decide) _).bind fun name name' hname => ?_
  refine (twins_accept rfl rfl).bind fun o o' h => ?_
  cases h with
  | none =>
    exact (twins_pure .none).bind fun _ _ h => (twins_expect (by decide) _).bind fun _ _ _ =>
      twins_pure (.varDecl hname h)
  | some hequals =>
    have hinitial : Twins (Expr.LikeOptional Token.Twin) (some <$> expression)
        (some <$> expression') := he.bind fun _ _ h => twins_pure (.some h)
    refine hinitial.bind fun _ _ h => ?_
    exact (twins_expect (by decide) _).bind fun _ _ _ => twins_pure (.varDecl hname h)

theorem Twins.expressionStmt (he : TwinExpr expression expression') :
    TwinStmt (expressionStmt expression) (expressionStmt expression') :=
  he.bind fun _ _ h => (twins_expect (by decide) _).bind fun _ _ _ => twins_pure (.expression h)

theorem Twins.printStmt (he : TwinExpr expression expression') :
    TwinStmt (printStmt expression) (printStmt expression') :=
  he.bind fun _ _ h => (twins_expect (by decide) _).bind fun _ _ _ => twins_pure (.print h)

theorem Twins.ifStmt (he : TwinExpr expression expression') (hb : TwinBlock block block') :
    TwinStmt (ifStmt expression block) (ifStmt expression' block') := by
  refine (twins_expect (by decide) _).bind fun _ _ _ => he.bind fun _ _ hcondition => ?_
  refine (twins_expect (by decide) _).bind fun _ _ _ => (hb.braced _).bind fun _ _ hbody => ?_
  refine (twins_accept rfl rfl).bind fun o o' h => ?_
  cases h with
  | none => exact twins_pure (.ifThen hcondition hbody)
  | some hother => exact (hb.braced _).bind fun _ _ h => twins_pure (.ifElse hcondition hbody h)

theorem Twins.whileStmt (he : TwinExpr expression expression') (hb : TwinBlock block block') :
    TwinStmt (whileStmt expression block) (whileStmt expression' block') :=
  (twins_expect (by decide) _).bind fun _ _ _ => he.bind fun _ _ hcondition =>
    (twins_expect (by decide) _).bind fun _ _ _ => (hb.braced _).inLoop.bind fun _ _ hbody =>
    twins_pure (.whileLoop hcondition hbody .none)

theorem Twins.forInitial (he : TwinExpr expression expression') :
    Twins (Option.Rel (Stmt.Like Token.Twin)) (forInitial expression) (forInitial expression') := by
  refine twins_peek.bind fun t t' ht => ?_
  have hkind := ht.kind
  generalize t.kind = kind, t'.kind = kind' at hkind ⊢
  refine hkind.transfer rfl rfl ?_
  cases kind with
  | semicolon => exact (twins_pure .none).behind
  | kwVar => exact Twins.behind (he.varDecl.bind fun _ _ h => twins_pure (.some h))
  | _ => exact he.expressionStmt.bind fun _ _ h => twins_pure (.some h)

theorem like_forLoop {initial initial' : Option Stmt}
    {condition condition' step step' : Option Expr} {body body' : List Stmt}
    (hinitial : Option.Rel (Stmt.Like Token.Twin) initial initial')
    (hcondition : Expr.LikeOptional Token.Twin condition condition')
    (hstep : Expr.LikeOptional Token.Twin step step') (hbody : Stmt.LikeAll Token.Twin body body') :
    (forLoop initial condition step body).Like Token.Twin
      (forLoop initial' condition' step' body') := by
  have hholds : (condition.getD (.literal (.boolean true))).Like Token.Twin
      (condition'.getD (.literal (.boolean true))) := by
    cases hcondition with
    | none => exact .literal _
    | some h => exact h
  have hloop := Stmt.Like.whileLoop hholds hbody hstep
  cases hinitial with
  | none => exact hloop
  | some h => exact .block (.cons h (.cons hloop .nil))

theorem Twins.forStmt (he : TwinExpr expression expression') (hb : TwinBlock block block') :
    TwinStmt (forStmt expression block) (forStmt expression' block') :=
  (twins_expect (by decide) _).bind fun _ _ _ => he.forInitial.bind fun _ _ hinitial =>
    (he.optional (by decide)).bind fun _ _ hcondition =>
    (twins_expect (by decide) _).bind fun _ _ _ => (he.optional (by decide)).bind fun _ _ hstep =>
    (twins_expect (by decide) _).bind fun _ _ _ => (hb.braced _).inLoop.bind fun _ _ hbody =>
    twins_pure (like_forLoop hinitial hcondition hstep hbody)

theorem Twins.returnStmt (he : TwinExpr expression expression') {keyword keyword' : Token}
    (hkeyword : keyword.Twin keyword') :
    TwinStmt (returnStmt expression keyword) (returnStmt expression' keyword') :=
  (he.optional (by decide)).bind fun _ _ h => (twins_expect (by decide) _).bind fun _ _ _ =>
    twins_pure (.returnValue hkeyword h)

theorem twins_jumpStmt {keyword keyword' : Token} {stmt stmt' : Stmt} (word : String)
    (hkeyword : keyword.Twin keyword') (hstmt : stmt.Like Token.Twin stmt') :
    TwinStmt (jumpStmt keyword word stmt) (jumpStmt keyword' word stmt') := by
  refine twins_loops.bind fun n n' hn => ?_
  refine twins_ite (by rw [hn]) (twins_fail hkeyword _) ?_
  exact (twins_expect (by decide) _).bind fun _ _ _ => twins_pure hstmt

theorem Twins.statement (he : TwinExpr expression expression') (hb : TwinBlock block block') :
    TwinStmt (statement expression block) (statement expression' block') := by
  refine twins_peek.bind fun t t' ht => ?_
  have hkind := ht.kind
  generalize t.kind = kind, t'.kind = kind' at hkind ⊢
  refine hkind.transfer rfl rfl ?_
  cases kind with
  | kwPrint => exact he.printStmt.behind
  | kwIf => exact (he.ifStmt hb).behind
  | kwWhile => exact (he.whileStmt hb).behind
  | kwFor => exact (he.forStmt hb).behind
  | kwReturn => exact (he.returnStmt ht).behind
  | kwBreak => exact (twins_jumpStmt _ ht (.breakLoop ht)).behind
  | kwContinue => exact (twins_jumpStmt _ ht (.continueLoop ht)).behind
  | leftBrace => exact Twins.behind (hb.bind fun _ _ h => twins_pure (.block h))
  | semicolon => exact (twins_pure .empty).behind
  | _ => exact he.expressionStmt

theorem Twins.declaration (he : TwinExpr expression expression') (hb : TwinBlock block block') :
    TwinStmt (declaration expression block) (declaration expression' block') := by
  refine twins_peek.bind fun t t' ht => ?_
  have hkind := ht.kind
  generalize t.kind = kind, t'.kind = kind' at hkind ⊢
  refine hkind.transfer rfl rfl ?_
  cases kind with
  | kwClass => exact hb.classDecl.behind
  | kwFun =>
    exact Twins.behind ((hb.function _).bind fun _ _ h => twins_pure (.functionDecl h))
  | kwVar => exact he.varDecl.behind
  | _ => exact he.statement hb

theorem Twins.recovered (he : TwinExpr expression expression') (hb : TwinBlock block block') :
    TwinStmt (recovered expression block) (recovered expression' block') := by
  refine (he.declaration hb).recover fun fault fault' h => ?_
  rw [h.error]
  exact .error _ h.token

end Statements

theorem twins_block (room : Nat) : TwinBlock (Rule.block room) (Rule.block room) := by
  induction room with
  | zero => exact twins_tooDeep
  | succ room ih =>
    have he := (twins_operand_expression room).2
    exact (((he.recovered ih).many (by decide)).bind fun _ _ hbody =>
      (twins_expect (by decide) _).bind fun _ _ _ => twins_pure hbody).nested

theorem twins_program : TwinBlock program program :=
  ((twins_operand_expression maxDepth).2.recovered (twins_block maxDepth)).many (by decide)

end Rule

/-- The readings of twin tokens have programs that are alike, and twin faults. -/
theorem Reading.twin_ofTokens {body body' : List Token} {close close' : Token}
    (hbody : List.Forall₂ Token.Twin body body') (hclose : close.Twin close') :
    Stmt.LikeAll Token.Twin (Reading.ofTokens body close).program
        (Reading.ofTokens body' close').program ∧
      List.Forall₂ SyntaxFault.Twin (Reading.ofTokens body close).faults
        (Reading.ofTokens body' close').faults := by
  have hstep := Rule.twins_program (.start body close) (.start body' close')
    ⟨hbody, hclose, rfl, rfl, rfl⟩
  unfold Reading.ofTokens
  generalize Rule.program (.start body close) = step at hstep ⊢
  generalize Rule.program (.start body' close') = step' at hstep ⊢
  cases hstep with
  | ok hprogram _ hreports => exact ⟨hprogram, hreports⟩
  | error _ _ hreports => exact ⟨.nil, hreports⟩

end Lox

import Lox.Proofs.Progress

/-!
# Reading longer lists

Tokens that end in a semicolon can be read alone or with more tokens behind them. The
two runs do the same until the first one passes the last semicolon. A rule that is not
done by then finds the end where it wants a token, and reports it. Resuming after a fault
looks no further either, since it stops behind a semicolon. This module compares the two
runs for the parts of rules and for the loops.
-/
namespace Lox

/-- What follows the tokens of a cursor in a longer list. -/
structure Sequel where
  tokens : List Token
  close : Token
  close_kind : close.kind = .eof

namespace Cursor

/-- The cursor in the longer list. -/
def extend (c : Cursor) (s : Sequel) : Cursor :=
  { c with ahead := c.ahead ++ s.tokens, close := s.close }

/-- The tokens ahead end in a semicolon. -/
structure Bounded (c : Cursor) : Prop where
  close_kind : c.close.kind = .eof
  last : c.ahead.getLast?.map Token.kind = some .semicolon

/-- There are no tokens ahead. -/
structure AtEnd (c : Cursor) : Prop where
  close_kind : c.close.kind = .eof
  ahead : c.ahead = []

variable {c : Cursor} {s : Sequel}

theorem AtEnd.peek_kind (h : c.AtEnd) : c.peek.kind = .eof := by
  exact peek_kind_of_nil h.close_kind h.ahead

theorem Bounded.exists_cons (h : c.Bounded) : ∃ t rest, c.ahead = t :: rest := by
  cases hahead : c.ahead with
  | nil =>
    have hlast := h.last
    rw [hahead] at hlast
    cases hlast
  | cons t rest => exact ⟨t, rest, rfl⟩

theorem Bounded.peek_extend (h : c.Bounded) : (c.extend s).peek = c.peek := by
  obtain ⟨t, rest, hahead⟩ := h.exists_cons
  simp [peek, extend, hahead]

theorem Bounded.advance_extend (h : c.Bounded) : (c.extend s).advance = c.advance.extend s := by
  obtain ⟨ahead, close, position, depth, loops⟩ := c
  obtain ⟨t, rest, rfl⟩ := h.exists_cons
  rfl

/-- Only a semicolon is in front of the end. -/
theorem Bounded.advance (h : c.Bounded) :
    c.advance.Bounded ∨ c.peek.kind = .semicolon ∧ c.advance.AtEnd := by
  obtain ⟨ahead, close, position, depth, loops⟩ := c
  obtain ⟨t, rest, rfl⟩ := h.exists_cons
  obtain ⟨hclose, hlast⟩ := h
  cases rest with
  | nil =>
    have ht : t.kind = .semicolon := by simpa using hlast
    exact .inr ⟨ht, hclose, rfl⟩
  | cons next rest =>
    rw [List.getLast?_cons_cons] at hlast
    exact .inl ⟨hclose, hlast⟩

/-- The tokens from which reading resumes do not depend on what follows a semicolon. -/
theorem resume_append {ahead : List Token} (more : List Token)
    (hlast : ahead.getLast?.map Token.kind = some .semicolon) :
    resume (ahead ++ more) = resume ahead ++ more := by
  induction ahead using resume.induct with
  | case1 => cases hlast
  | case2 t =>
    have ht : t.kind = .semicolon := by simpa using hlast
    cases more with
    | nil => rfl
    | cons m more => simp [resume, ht]
  | case3 t next rest h => simp only [List.cons_append, resume, if_pos h]
  | case4 t next rest h ih =>
    rw [List.getLast?_cons_cons] at hlast
    simp only [List.cons_append, resume, if_neg h]
    exact ih hlast

theorem Bounded.resync (h : c.Bounded) : c.resync.Bounded ∨ c.resync.AtEnd := by
  obtain ⟨ts, hts⟩ := exists_append_resume c.ahead
  have hlast := h.last
  rw [hts] at hlast
  cases hresume : resume c.ahead with
  | nil => exact .inr ⟨h.close_kind, hresume⟩
  | cons t rest =>
    rw [hresume, List.getLast?_append_of_ne_nil _ (List.cons_ne_nil t rest)] at hlast
    refine .inl ⟨h.close_kind, ?_⟩
    change (resume c.ahead).getLast?.map Token.kind = _
    rw [hresume]
    exact hlast

theorem Bounded.resync_extend (h : c.Bounded) : (c.extend s).resync = c.resync.extend s := by
  have hresume := resume_append s.tokens h.last
  simp [Cursor.resync, extend, hresume, Nat.add_sub_add_right]

end Cursor

namespace Step

variable {α : Type}

/-- The step in a longer list. -/
def extend (s : Sequel) (step : Step α) : Step α := { step with cursor := step.cursor.extend s }

/-- A fault is reported about the end of the tokens. -/
def Starved (step : Step α) : Prop := ∃ fault ∈ step.reports, fault.token.kind = .eof

theorem Starved.mono {β : Type} {step : Step α} {step' : Step β} (h : step.Starved)
    (hreports : step.reports ⊆ step'.reports) : step'.Starved := by
  obtain ⟨fault, hmem, hkind⟩ := h
  exact ⟨fault, hreports hmem, hkind⟩

end Step

namespace Rule

variable {α β : Type} {c d : Cursor} {s : Sequel} {mayEnd : Prop} {a : α}
  {reports : List SyntaxFault}

/-- The rule does the same when more tokens follow. -/
def SameAt (s : Sequel) (rule : Rule α) (c : Cursor) : Prop :=
  rule (c.extend s) = (rule c).extend s

/-- The rule reports the end, or it does the same when more tokens follow and leaves tokens that end
in a semicolon. If `mayEnd`, it may also leave none when it has a result. -/
def AgreesAt (s : Sequel) (mayEnd : Prop) (rule : Rule α) (c : Cursor) : Prop :=
  (rule c).Starved ∨ SameAt s rule c ∧
    ((rule c).cursor.Bounded ∨ mayEnd ∧ (rule c).cursor.AtEnd ∧ ∃ a, (rule c).outcome = .ok a)

/-- The rule reports the end, or it does the same when more tokens follow, or it has a result and
leaves no tokens. -/
def StopsAt (s : Sequel) (rule : Rule α) (c : Cursor) : Prop :=
  (rule c).Starved ∨ SameAt s rule c ∧ (rule c).cursor.Bounded ∨
    (rule c).cursor.AtEnd ∧ ∃ a, (rule c).outcome = .ok a

/-- The rule agrees wherever the tokens ahead end in a semicolon. -/
def Agrees (s : Sequel) (mayEnd : Prop) (rule : Rule α) : Prop :=
  ∀ c : Cursor, c.Bounded → AgreesAt s mayEnd rule c

/-- At the end, the rule reports it. -/
def Hungry (rule : Rule α) : Prop := ∀ c : Cursor, c.AtEnd → (rule c).Starved

/-! ### Rules in sequence -/

section Sequence

variable {rule : Rule α} {next : α → Rule β}

theorem Agrees.mono {p : Prop} (h : Agrees s mayEnd rule) (hp : mayEnd → p) :
    Agrees s p rule := by
  intro c hc
  obtain hstarved | ⟨hsame, hbounded | ⟨hmay, hend⟩⟩ := h c hc
  · exact .inl hstarved
  · exact .inr ⟨hsame, .inl hbounded⟩
  · exact .inr ⟨hsame, .inr ⟨hp hmay, hend⟩⟩

theorem AgreesAt.stopsAt (h : AgreesAt s mayEnd rule c) : StopsAt s rule c := by
  obtain hstarved | ⟨hsame, hbounded | ⟨-, hend⟩⟩ := h
  · exact .inl hstarved
  · exact .inr (.inl ⟨hsame, hbounded⟩)
  · exact .inr (.inr hend)

theorem starved_bind_left (h : (rule c).Starved) : ((rule >>= next) c).Starved := by
  rcases hrule : rule c with ⟨fault | a, d, reports⟩
  · rw [hrule] at h
    rw [bind_of_error hrule]
    exact h
  · rw [hrule] at h
    rw [bind_of_ok hrule]
    exact h.mono (List.subset_append_left _ _)

theorem starved_bind_right (hrule : rule c = ⟨.ok a, d, reports⟩) (h : (next a d).Starved) :
    ((rule >>= next) c).Starved := by
  rw [bind_of_ok hrule]
  exact h.mono (List.subset_append_right _ _)

theorem Hungry.bind (h : Hungry rule) : Hungry (rule >>= next) :=
  fun c hc => starved_bind_left (h c hc)

/-- Both runs go on with the second rule if they do the same in the first. -/
theorem sameAt_bind (hrule : rule c = ⟨.ok a, d, reports⟩) (hsame : SameAt s rule c)
    (hnext : SameAt s (next a) d) : SameAt s (rule >>= next) c := by
  unfold SameAt at hsame hnext ⊢
  rw [hrule] at hsame
  rw [bind_of_ok hrule, bind_of_ok hsame, hnext]
  rfl

theorem AgreesAt.of_next (hrule : rule c = ⟨.ok a, d, reports⟩) (hsame : SameAt s rule c)
    (hnext : AgreesAt s mayEnd (next a) d) : AgreesAt s mayEnd (rule >>= next) c := by
  obtain hstarved | ⟨hsame', hleft⟩ := hnext
  · exact .inl (starved_bind_right hrule hstarved)
  · refine .inr ⟨sameAt_bind hrule hsame hsame', ?_⟩
    rw [bind_of_ok hrule]
    exact hleft

theorem StopsAt.of_next (hrule : rule c = ⟨.ok a, d, reports⟩) (hsame : SameAt s rule c)
    (hnext : StopsAt s (next a) d) : StopsAt s (rule >>= next) c := by
  obtain hstarved | ⟨hsame', hbounded⟩ | hend := hnext
  · exact .inl (starved_bind_right hrule hstarved)
  · refine .inr (.inl ⟨sameAt_bind hrule hsame hsame', ?_⟩)
    rw [bind_of_ok hrule]
    exact hbounded
  · refine .inr (.inr ?_)
    rw [bind_of_ok hrule]
    exact hend

/-- Both runs fail if the first rule does. -/
theorem AgreesAt.of_error {fault : SyntaxFault} (hrule : rule c = ⟨.error fault, d, reports⟩)
    (hsame : SameAt s rule c) (hbounded : d.Bounded) : AgreesAt s mayEnd (rule >>= next) c := by
  refine .inr ⟨?_, .inl ?_⟩
  · unfold SameAt at hsame ⊢
    rw [hrule] at hsame
    rw [bind_of_error hrule, bind_of_error hsame]
    rfl
  · rw [bind_of_error hrule]
    exact hbounded

theorem AgreesAt.of_sameAt (hsame : SameAt s rule c) (hbounded : (rule c).cursor.Bounded)
    (hn : ∀ a d reports, rule c = ⟨.ok a, d, reports⟩ → d.Bounded →
      AgreesAt s mayEnd (next a) d) : AgreesAt s mayEnd (rule >>= next) c := by
  rcases hrule : rule c with ⟨fault | a, d, reports⟩
  · rw [hrule] at hbounded
    exact .of_error hrule hsame hbounded
  · rw [hrule] at hbounded
    exact .of_next hrule hsame (hn a d reports hrule hbounded)

theorem AgreesAt.bind (hr : AgreesAt s False rule c)
    (hn : ∀ a d reports, rule c = ⟨.ok a, d, reports⟩ → d.Bounded →
      AgreesAt s mayEnd (next a) d) : AgreesAt s mayEnd (rule >>= next) c := by
  obtain hstarved | ⟨hsame, hbounded | ⟨hfalse, -⟩⟩ := hr
  · exact .inl (starved_bind_left hstarved)
  · exact .of_sameAt hsame hbounded hn
  · exact hfalse.elim

/-- If the first rule may leave no tokens, the second one has to report that. -/
theorem StopsAt.bind (hr : StopsAt s rule c) (hn : ∀ a, Agrees s mayEnd (next a))
    (hend : ∀ a, Hungry (next a)) : AgreesAt s mayEnd (rule >>= next) c := by
  obtain hstarved | ⟨hsame, hbounded⟩ | ⟨hatEnd, a, hok⟩ := hr
  · exact .inl (starved_bind_left hstarved)
  · exact .of_sameAt hsame hbounded fun a d _ _ hd => hn a d hd
  · rcases hrule : rule c with ⟨outcome, d, reports⟩
    rw [hrule] at hatEnd hok
    obtain rfl : outcome = .ok a := hok
    exact .inl (starved_bind_right hrule (hend a d hatEnd))

theorem Agrees.bind (hr : Agrees s False rule) (hn : ∀ a, Agrees s mayEnd (next a)) :
    Agrees s mayEnd (rule >>= next) :=
  fun c hc => (hr c hc).bind fun a d _ _ hd => hn a d hd

theorem Agrees.bind_hungry (hr : Agrees s True rule) (hn : ∀ a, Agrees s mayEnd (next a))
    (hend : ∀ a, Hungry (next a)) : Agrees s mayEnd (rule >>= next) :=
  fun c hc => (hr c hc).stopsAt.bind hn hend

theorem sameAt_pure (b : β) : SameAt s (pure b) c := rfl

/-- What is done with the result does not matter. -/
theorem AgreesAt.map (f : α → β) (h : AgreesAt s mayEnd rule c) :
    AgreesAt s mayEnd (rule >>= fun a => pure (f a)) c := by
  obtain hstarved | ⟨hsame, hleft⟩ := h
  · exact .inl (starved_bind_left hstarved)
  · rcases hrule : rule c with ⟨fault | a, d, reports⟩
    · obtain hbounded | ⟨-, -, a, hok⟩ := hleft
      · rw [hrule] at hbounded
        exact .of_error hrule hsame hbounded
      · rw [hrule] at hok
        cases hok
    · refine .inr ⟨sameAt_bind hrule hsame (sameAt_pure _), ?_⟩
      rw [hrule] at hleft
      rw [bind_of_ok hrule]
      exact hleft.imp_right fun ⟨hmay, hend, _⟩ => ⟨hmay, hend, f a, rfl⟩

theorem StopsAt.map (f : α → β) (h : StopsAt s rule c) :
    StopsAt s (rule >>= fun a => pure (f a)) c := by
  obtain hstarved | ⟨hsame, hbounded⟩ | ⟨hend, a, hok⟩ := h
  · exact .inl (starved_bind_left hstarved)
  · have hagrees : AgreesAt s False rule c := .inr ⟨hsame, .inl hbounded⟩
    exact (hagrees.map f).stopsAt
  · rcases hrule : rule c with ⟨outcome, d, reports⟩
    rw [hrule] at hend hok
    obtain rfl : outcome = .ok a := hok
    refine .inr (.inr ?_)
    rw [bind_of_ok hrule]
    exact ⟨hend, f a, rfl⟩

theorem Agrees.map (h : Agrees s mayEnd rule) (f : α → β) :
    Agrees s mayEnd (rule >>= fun a => pure (f a)) := fun c hc => (h c hc).map f

end Sequence

/-! ### Basic rules -/

theorem agrees_pure (a : α) : Agrees s mayEnd (pure a) :=
  fun _ hc => .inr ⟨rfl, .inl hc⟩

theorem agrees_fail (token : Token) (error : SyntaxError) :
    Agrees s mayEnd (fail token error : Rule α) :=
  fun _ hc => .inr ⟨rfl, .inl hc⟩

theorem agrees_report (token : Token) (error : SyntaxError) :
    Agrees s mayEnd (report token error) :=
  fun _ hc => .inr ⟨rfl, .inl hc⟩

theorem agrees_loops : Agrees s mayEnd loops := fun _ hc => .inr ⟨rfl, .inl hc⟩

/-- Both runs see the same token. -/
theorem sameAt_peek (hc : c.Bounded) : SameAt s peek c := by
  unfold SameAt peek
  rw [hc.peek_extend]
  rfl

theorem AgreesAt.peek_bind {next : Token → Rule α} (hc : c.Bounded)
    (h : AgreesAt s mayEnd (next c.peek) c) : AgreesAt s mayEnd (peek >>= next) c :=
  .of_next rfl (sameAt_peek hc) h

theorem agrees_peek : Agrees s mayEnd peek := fun _ hc => .inr ⟨sameAt_peek hc, .inl hc⟩

theorem sameAt_advance (hc : c.Bounded) : SameAt s advance c := by
  unfold SameAt advance
  rw [hc.advance_extend]
  rfl

theorem agreesAt_advance (hc : c.Bounded) (h : c.peek.kind = .semicolon → mayEnd) :
    AgreesAt s mayEnd advance c := by
  refine .inr ⟨sameAt_advance hc, ?_⟩
  obtain hbounded | ⟨hkind, hend⟩ := hc.advance
  · exact .inl hbounded
  · exact .inr ⟨h hkind, hend, (), rfl⟩

/-- Behind a token that is no semicolon there are more tokens. -/
theorem AgreesAt.word {next : Unit → Rule α} {kind : Kind} (hc : c.Bounded)
    (hkind : c.peek.kind = kind) (hne : kind ≠ .semicolon) (hn : Agrees s mayEnd (next ())) :
    AgreesAt s mayEnd (advance >>= next) c := by
  have hadvance : AgreesAt s False advance c :=
    agreesAt_advance hc fun h => hne (hkind.symm.trans h)
  exact hadvance.bind fun _ d _ _ hd => hn d hd

theorem agrees_accept {wanted : Kind → Bool} (h : wanted .semicolon = false) :
    Agrees s False (accept wanted) := by
  intro c hc
  refine .peek_bind hc ?_
  split
  · next hw =>
    refine AgreesAt.map (fun _ => some c.peek) (agreesAt_advance hc fun hkind => ?_)
    rw [hkind, h] at hw
    cases hw
  · exact agrees_pure _ c hc

theorem agrees_expect {kind : Kind} {what : String} (h : kind = .semicolon → mayEnd) :
    Agrees s mayEnd (expect kind what) := by
  intro c hc
  refine .peek_bind hc ?_
  split
  · next hkind =>
    exact AgreesAt.map (fun _ => c.peek) (agreesAt_advance hc fun hs => h (hkind.symm.trans hs))
  · exact agrees_fail _ _ c hc

theorem hungry_expect {kind : Kind} {what : String} (h : kind ≠ .eof) :
    Hungry (expect kind what) := by
  intro c hc
  have hne : c.peek.kind ≠ kind := fun hkind => h (hkind.symm.trans hc.peek_kind)
  change ((if c.peek.kind = kind then _ else _ : Rule Token) c).Starved
  rw [if_neg hne]
  exact ⟨_, List.mem_singleton_self _, hc.peek_kind⟩

theorem agrees_tooDeep : Agrees s mayEnd (tooDeep : Rule α) := by
  intro c hc
  have hpeek : (c.extend s).peek = c.peek := hc.peek_extend
  refine .inr ⟨?_, .inl ⟨hc.close_kind, hc.last⟩⟩
  change (⟨.error ⟨(c.extend s).peek, .tooDeep⟩, _, [⟨(c.extend s).peek, .tooDeep⟩]⟩ : Step α) = _
  rw [hpeek]
  rfl

theorem hungry_tooDeep : Hungry (tooDeep : Rule α) :=
  fun _ hc => ⟨_, List.mem_singleton_self _, hc.peek_kind⟩

/-! ### Rules around rules -/

theorem Agrees.bracket {rule outer : Rule α} {before : Cursor → Cursor}
    {after : Cursor → Cursor → Cursor} (hr : Agrees s mayEnd rule)
    (heq : ∀ c, outer c = (rule (before c)).closeWith (after c))
    (hbefore : ∀ c : Cursor, before (c.extend s) = (before c).extend s)
    (hafter : ∀ c d : Cursor, after (c.extend s) (d.extend s) = (after c d).extend s)
    (hahead : ∀ c : Cursor, (before c).ahead = c.ahead ∧ (before c).close = c.close)
    (hleft : ∀ c d : Cursor, (after c d).ahead = d.ahead ∧ (after c d).close = d.close) :
    Agrees s mayEnd outer := by
  intro c hc
  have hc' : (before c).Bounded := by
    constructor
    · rw [(hahead c).2]
      exact hc.close_kind
    · rw [(hahead c).1]
      exact hc.last
  have h := hr (before c) hc'
  unfold AgreesAt SameAt at h ⊢
  rw [heq, heq, hbefore]
  rcases hrule : rule (before c) with ⟨fault | a, d, reports⟩
  · rw [hrule] at h
    obtain hstarved | ⟨hsame, hends⟩ := h
    · exact .inl hstarved
    · refine .inr ⟨?_, hends⟩
      rw [hsame]
      rfl
  · rw [hrule] at h
    obtain hstarved | ⟨hsame, hends⟩ := h
    · exact .inl hstarved
    · obtain ⟨hd, hd'⟩ := hleft c d
      refine .inr ⟨?_, ?_⟩
      · rw [hsame]
        simp only [Step.closeWith, Step.extend, hafter]
      · obtain hbounded | ⟨hmay, hatEnd, _⟩ := hends
        · exact .inl ⟨hd'.symm ▸ hbounded.close_kind, hd.symm ▸ hbounded.last⟩
        · exact .inr ⟨hmay, ⟨hd'.symm ▸ hatEnd.close_kind, hd.symm ▸ hatEnd.ahead⟩, a, rfl⟩

theorem Agrees.nested {rule : Rule α} (h : Agrees s mayEnd rule) : Agrees s mayEnd (nested rule) :=
  h.bracket (nested_eq rule) (fun _ => rfl) (fun _ _ => rfl) (fun _ => ⟨rfl, rfl⟩)
    fun _ _ => ⟨rfl, rfl⟩

theorem Agrees.inLoop {rule : Rule α} (h : Agrees s mayEnd rule) : Agrees s mayEnd (inLoop rule) :=
  h.bracket (inLoop_eq rule) (fun _ => rfl) (fun _ _ => rfl) (fun _ => ⟨rfl, rfl⟩)
    fun _ _ => ⟨rfl, rfl⟩

theorem Agrees.outsideLoops {rule : Rule α} (h : Agrees s mayEnd rule) :
    Agrees s mayEnd (outsideLoops rule) :=
  h.bracket (outsideLoops_eq rule) (fun _ => rfl) (fun _ _ => rfl) (fun _ => ⟨rfl, rfl⟩)
    fun _ _ => ⟨rfl, rfl⟩

/-- Both runs resume at the same place. -/
theorem Agrees.recover {rule : Rule α} {instead : SyntaxFault → α} (h : Agrees s mayEnd rule) :
    Agrees s True (recover rule instead) := by
  intro c hc
  have hrule := h c hc
  unfold AgreesAt SameAt at hrule ⊢
  unfold Rule.recover
  rcases hstep : rule c with ⟨fault | a, d, reports⟩
  · rw [hstep] at hrule
    refine hrule.imp_right fun ⟨hsame, hends⟩ => ?_
    obtain hbounded | ⟨-, -, a, hok⟩ := hends
    · have hd : (d.reopen c).Bounded := ⟨hbounded.close_kind, hbounded.last⟩
      constructor
      · rw [hsame]
        exact congrArg (fun e => (⟨.ok (instead fault), e, reports⟩ : Step α)) hd.resync_extend
      · exact hd.resync.imp_right fun hatEnd => ⟨trivial, hatEnd, _, rfl⟩
    · cases hok
  · rw [hstep] at hrule
    refine hrule.imp_right fun ⟨hsame, hends⟩ => ⟨?_, ?_⟩
    · rw [hsame]
      rfl
    · exact hends.imp_right fun ⟨_, hend⟩ => ⟨trivial, hend⟩

/-! ### Loops -/

theorem AgreesAt.congr {rule rule' : Rule α} (h : AgreesAt s mayEnd rule' c)
    (heq : rule c = rule' c) (heq' : rule (c.extend s) = rule' (c.extend s)) :
    AgreesAt s mayEnd rule c := by
  unfold AgreesAt SameAt at h ⊢
  rw [heq, heq']
  exact h

theorem StopsAt.congr {rule rule' : Rule α} (h : StopsAt s rule' c)
    (heq : rule c = rule' c) (heq' : rule (c.extend s) = rule' (c.extend s)) :
    StopsAt s rule c := by
  unfold StopsAt SameAt at h ⊢
  rw [heq, heq']
  exact h

/-- The items before the end are read the same; where there are no tokens left, the longer run may
find more items. -/
theorem stopsAt_many {stop : Kind} {item : Rule α} (hitem : Composed item)
    (hconsumes : ConsumesBefore stop item) (h : Agrees s True item) (hc : c.Bounded) :
    StopsAt s (many stop item) c := by
  induction hlength : c.ahead.length using Nat.strong_induction_on generalizing c with
  | _ n ih =>
    refine StopsAt.congr ?_ (many_eq hitem hconsumes hc.close_kind)
      (many_eq hitem hconsumes s.close_kind)
    refine .of_next rfl (sameAt_peek hc) ?_
    dsimp only
    split
    · exact ((agrees_pure [] c hc : AgreesAt s True _ c)).stopsAt
    · next hstop =>
      obtain ⟨hstop, heof⟩ := not_or.1 hstop
      obtain hstarved | ⟨hsame, hends⟩ := h c hc
      · exact .inl (starved_bind_left hstarved)
      rcases hrule : item c with ⟨fault | a, d, reports⟩
      · obtain hbounded | ⟨-, -, a, hok⟩ := hends
        · rw [hrule] at hbounded
          exact (AgreesAt.of_error hrule hsame hbounded : AgreesAt s False _ c).stopsAt
        · rw [hrule] at hok
          cases hok
      · refine .of_next hrule hsame ?_
        rw [hrule] at hends
        obtain hbounded | ⟨-, hatEnd, -⟩ := hends
        · have hlt := (hconsumes c hc.close_kind hstop heof).length_lt hrule
          exact (ih _ (hlength ▸ hlt) hbounded rfl).map _
        · refine .inr (.inr ?_)
          rw [bind_of_ok (many_of_nil hatEnd.ahead)]
          exact ⟨hatEnd, [a], rfl⟩

theorem Agrees.chainRest {level : Level} {operand : Rule Expr}
    (hwanted : level.wanted .semicolon = false) (heof : level.wanted .eof = false)
    (hcomposed : Composed operand) (h : Agrees s False operand) :
    ∀ left, Agrees s False (chainRest level operand left) := by
  intro left c hc
  induction hlength : c.ahead.length using Nat.strong_induction_on generalizing c left with
  | _ n ih =>
    refine AgreesAt.congr ?_ (chainRest_eq heof hcomposed hc.close_kind)
      (chainRest_eq heof hcomposed s.close_kind)
    refine (agrees_accept hwanted c hc).bind fun o d reports haccept hd => ?_
    cases o with
    | none => exact agrees_pure _ d hd
    | some op =>
      refine (h d hd).bind fun right e more hright he => ?_
      have hlt := length_lt_of_accept heof hc.close_kind haccept
      obtain ⟨ts, hts⟩ := hcomposed.passes_of_ok hright
      exact ih _ (hlength ▸ hts.length_le.trans_lt hlt) _ e he rfl

theorem agrees_parametersRest (count : Nat) : Agrees s False (parametersRest count) := by
  intro c hc
  induction hlength : c.ahead.length using Nat.strong_induction_on generalizing c count with
  | _ n ih =>
    refine AgreesAt.congr ?_ (parametersRest_eq hc.close_kind) (parametersRest_eq s.close_kind)
    have hnames : AgreesAt s False (namesRound (parametersRest (count + 1))) c := by
      refine (agrees_expect (by decide) c hc).bind fun name d reports hname hd => ?_
      refine (agrees_accept rfl d hd).bind fun o e more haccept he => ?_
      cases o with
      | none => exact agrees_pure _ e he
      | some comma =>
        have hfirst := (consumes_expect (by decide) c hc.close_kind).length_lt hname
        have hsecond := length_lt_of_accept rfl hd.close_kind haccept
        exact (ih _ (hlength ▸ hsecond.trans hfirst) _ e he rfl).map _
    unfold parametersRound
    dsimp only
    split
    · exact .peek_bind hc (.of_next rfl rfl hnames)
    · exact hnames

end Rule

end Lox

import Lox.Rule
import Mathlib.Tactic

/-!
# Reading without reports

A rule reads cleanly if it ends with a result and has reported nothing. Clean
readings compose, so each rule is opened once, by the equivalence that says when
it reads cleanly; the theory of the grammar then speaks of tokens passed and not
of steps. A rule that fails is shown to have reported its fault, so a rule that
reported nothing has a result.
-/
namespace Lox

namespace Cursor

/-- The second cursor stands behind the tokens `ts`, which are ahead at the first one. The nesting
and the loops that are open are the same at both. -/
structure Passes (c : Cursor) (ts : List Token) (c' : Cursor) : Prop where
  ahead : c.ahead = ts ++ c'.ahead
  position : c'.position = c.position + ts.length
  close : c'.close = c.close
  depth : c'.depth = c.depth
  loops : c'.loops = c.loops

variable {c c' c'' : Cursor} {t : Token} {ts us : List Token}

@[simp] theorem passes_nil : c.Passes [] c' ↔ c' = c := by
  constructor
  · rintro ⟨ha, hp, hc, hd, hl⟩
    obtain ⟨ahead, close, position, depth, loops⟩ := c'
    obtain ⟨ahead', close', position', depth', loops'⟩ := c
    simp_all
  · rintro rfl
    exact ⟨rfl, rfl, rfl, rfl, rfl⟩

theorem Passes.trans (h : c.Passes ts c') (h' : c'.Passes us c'') : c.Passes (ts ++ us) c'' where
  ahead := by rw [h.ahead, h'.ahead, List.append_assoc]
  position := by rw [h'.position, h.position, List.length_append]; omega
  close := h'.close.trans h.close
  depth := h'.depth.trans h.depth
  loops := h'.loops.trans h.loops

/-- Tokens in two parts are passed by way of a cursor between the parts. -/
theorem passes_append : c.Passes (ts ++ us) c'' ↔ ∃ c', c.Passes ts c' ∧ c'.Passes us c'' := by
  constructor
  · intro h
    refine ⟨{ c with ahead := us ++ c''.ahead, position := c.position + ts.length },
      ⟨by rw [h.ahead, List.append_assoc], rfl, rfl, rfl, rfl⟩,
      ⟨rfl, ?_, h.close, h.depth, h.loops⟩⟩
    rw [h.position, List.length_append, Nat.add_assoc]
  · rintro ⟨c', h, h'⟩
    exact h.trans h'

theorem passes_cons : c.Passes (t :: ts) c'' ↔ ∃ c', c.Passes [t] c' ∧ c'.Passes ts c'' := by
  rw [← List.singleton_append, passes_append]

theorem Passes.eq_advance (h : c.Passes [t] c') : c' = c.advance := by
  obtain ⟨ha, hp, hc, hd, hl⟩ := h
  obtain ⟨ahead, close, position, depth, loops⟩ := c'
  simp_all [advance]

theorem Passes.peek_eq (h : c.Passes (t :: ts) c') : c.peek = t := by
  simp [peek, h.ahead]

theorem passes_advance (hclose : c.close.kind = .eof) (h : c.peek.kind ≠ .eof) :
    c.Passes [c.peek] c.advance := by
  obtain ⟨ahead, close, position, depth, loops⟩ := c
  cases ahead with
  | nil => exact absurd hclose h
  | cons t rest => exact ⟨rfl, rfl, rfl, rfl, rfl⟩

theorem Passes.close_kind (h : c.Passes ts c') (hclose : c.close.kind = .eof) :
    c'.close.kind = .eof := by rw [h.close, hclose]

/-- The cursor behind all tokens. -/
def behind (c : Cursor) : Cursor :=
  { c with ahead := [], position := c.position + c.ahead.length }

theorem passes_behind (c : Cursor) : c.Passes c.ahead c.behind :=
  ⟨by simp [behind], rfl, rfl, rfl, rfl⟩

/-- If no token but the closing one ends a source, the end is behind all tokens. -/
theorem Passes.ahead_eq_nil (h : c.Passes ts c') (hahead : ∀ t ∈ c.ahead, t.kind ≠ .eof)
    (hend : c'.peek.kind = .eof) : c'.ahead = [] := by
  cases hrest : c'.ahead with
  | nil => rfl
  | cons t rest =>
    have hmem : t ∈ c.ahead := by simp [h.ahead, hrest]
    exact absurd (by simpa [peek, hrest] using hend) (hahead t hmem)

/-- One more level of nesting is open. -/
def deeper (c : Cursor) : Cursor := { c with depth := c.depth + 1 }

/-- One level of nesting less is open. -/
def shallower (c : Cursor) : Cursor := { c with depth := c.depth - 1 }

/-- The given number of loops is open. -/
def withLoops (c : Cursor) (loops : Nat) : Cursor := { c with loops }

theorem Passes.deeper (h : c.Passes ts c') : c.deeper.Passes ts c'.deeper :=
  ⟨h.ahead, h.position, h.close, congrArg (· + 1) h.depth, h.loops⟩

theorem Passes.shallower (h : c.deeper.Passes ts c') : c.Passes ts c'.shallower :=
  ⟨h.ahead, h.position, h.close, congrArg (· - 1) h.depth, h.loops⟩

theorem Passes.withLoops (h : c.Passes ts c') (n : Nat) :
    (c.withLoops n).Passes ts (c'.withLoops n) :=
  ⟨h.ahead, h.position, h.close, h.depth, rfl⟩

theorem Passes.restoreLoops {n : Nat} (h : (c.withLoops n).Passes ts c') :
    c.Passes ts (c'.withLoops c.loops) :=
  ⟨h.ahead, h.position, h.close, h.depth, rfl⟩

theorem Passes.withLoops_loops (h : c.Passes ts c') (n : Nat) :
    (c'.withLoops n).withLoops c.loops = c' := by
  simp [Cursor.withLoops, ← h.loops]

end Cursor

namespace Rule

variable {α β : Type} {c c' : Cursor} {a : α} {b : β}

/-- From the first cursor the rule reads `a`, reports nothing and ends at the second cursor. -/
def Reads (rule : Rule α) (c : Cursor) (a : α) (c' : Cursor) : Prop := rule c = ⟨.ok a, c', []⟩

@[simp] theorem reads_pure {x : β} : (pure b : Rule β).Reads c x c' ↔ x = b ∧ c' = c := by
  simp only [Reads, pure, Step.mk.injEq, Except.ok.injEq, and_true]
  exact and_congr eq_comm eq_comm

@[simp] theorem reads_bind {rule : Rule α} {next : α → Rule β} :
    (rule >>= next).Reads c b c' ↔ ∃ a d, rule.Reads c a d ∧ (next a).Reads d b c' := by
  simp only [Reads, bind]
  rcases rule c with ⟨fault | a, d, reports⟩
  · simp
  · rcases hn : next a d with ⟨outcome, e, more⟩
    simp only [hn, Step.mk.injEq, List.append_eq_nil_iff, Except.ok.injEq]
    constructor
    · rintro ⟨rfl, rfl, rfl, rfl⟩
      exact ⟨a, d, ⟨rfl, rfl, rfl⟩, hn⟩
    · rintro ⟨x, y, ⟨rfl, rfl, rfl⟩, hy⟩
      simpa using hn.symm.trans hy

@[simp] theorem reads_map {rule : Rule α} {f : α → β} :
    (f <$> rule).Reads c b c' ↔ ∃ a, rule.Reads c a c' ∧ b = f a := by
  change (rule >>= pure ∘ f).Reads c b c' ↔ _
  simp only [reads_bind, Function.comp_apply, reads_pure]
  constructor
  · rintro ⟨a, d, h, rfl, rfl⟩
    exact ⟨a, h, rfl⟩
  · rintro ⟨a, h, rfl⟩
    exact ⟨a, c', h, rfl, rfl⟩

@[simp] theorem reads_peek {t : Token} : peek.Reads c t c' ↔ t = c.peek ∧ c' = c := by
  simp only [Reads, peek, Step.mk.injEq, Except.ok.injEq, and_true]
  exact and_congr eq_comm eq_comm

@[simp] theorem reads_ahead {ts : List Token} : ahead.Reads c ts c' ↔ ts = c.ahead ∧ c' = c := by
  simp only [Reads, ahead, Step.mk.injEq, Except.ok.injEq, and_true]
  exact and_congr eq_comm eq_comm

@[simp] theorem reads_loops {n : Nat} : loops.Reads c n c' ↔ n = c.loops ∧ c' = c := by
  simp only [Reads, loops, Step.mk.injEq, Except.ok.injEq, and_true]
  exact and_congr eq_comm eq_comm

@[simp] theorem reads_update {f : Cursor → Cursor} {u : Unit} :
    (update f).Reads c u c' ↔ c' = f c := by
  simp only [Reads, update, Step.mk.injEq, and_true, true_and]
  exact eq_comm

@[simp] theorem reads_advance {u : Unit} : advance.Reads c u c' ↔ c' = c.advance := by
  simp only [Reads, advance, Step.mk.injEq, and_true, true_and]
  exact eq_comm

theorem reads_peek_bind {next : Token → Rule β} :
    (peek >>= next).Reads c b c' ↔ (next c.peek).Reads c b c' := by simp

theorem reads_ahead_bind {next : List Token → Rule β} :
    (ahead >>= next).Reads c b c' ↔ (next c.ahead).Reads c b c' := by simp

theorem reads_loops_bind {next : Nat → Rule β} :
    (loops >>= next).Reads c b c' ↔ (next c.loops).Reads c b c' := by simp

theorem reads_advance_bind {next : Unit → Rule β} :
    (advance >>= next).Reads c b c' ↔ (next ()).Reads c.advance b c' := by
  simp [Unique.exists_iff]

theorem reads_advance_pure {x : β} :
    (advance >>= fun _ => pure b : Rule β).Reads c x c' ↔ x = b ∧ c' = c.advance := by simp

@[simp] theorem reads_fail {t : Token} {error : SyntaxError} :
    ¬(fail t error : Rule α).Reads c a c' := by simp [Reads, fail]

@[simp] theorem reads_report {t : Token} {error : SyntaxError} {u : Unit} :
    ¬(report t error).Reads c u c' := by simp [Reads, report]

@[simp] theorem reads_ite {p : Prop} [Decidable p] {rule other : Rule α} :
    (if p then rule else other).Reads c a c' ↔
      if p then rule.Reads c a c' else other.Reads c a c' := by
  split <;> rfl

theorem reads_tooDeep : ¬(tooDeep : Rule α).Reads c a c' := by
  simp [tooDeep, enter]

theorem reads_nested {rule : Rule α} :
    (nested rule).Reads c a c' ↔ ∃ d, rule.Reads c.deeper a d ∧ c' = d.shallower := by
  simp [nested, enter, leave, Cursor.deeper, Cursor.shallower]

theorem reads_expect {kind : Kind} {what : String} {t : Token} (hk : t.kind = kind)
    (hp : c.Passes [t] c') : (expect kind what).Reads c t c' := by
  rw [expect, reads_peek_bind, hp.peek_eq, if_pos hk]
  exact reads_advance_pure.2 ⟨rfl, hp.eq_advance⟩

/-- What is read where a class is expected is a token of that class. -/
theorem passes_of_expect {kind : Kind} {what : String} {t : Token} (hkind : kind ≠ .eof)
    (hclose : c.close.kind = .eof) (h : (expect kind what).Reads c t c') :
    t.kind = kind ∧ c.Passes [t] c' ∧ c'.close.kind = .eof := by
  rw [expect, reads_peek_bind] at h
  split_ifs at h with hk
  · obtain ⟨rfl, rfl⟩ := reads_advance_pure.1 h
    have hp := Cursor.passes_advance hclose (hk ▸ hkind)
    exact ⟨hk, hp, hp.close_kind hclose⟩
  · exact absurd h reads_fail

theorem reads_accept_some {wanted : Kind → Bool} {t : Token} (hk : wanted t.kind = true)
    (hp : c.Passes [t] c') : (accept wanted).Reads c (some t) c' := by
  rw [accept, reads_peek_bind, hp.peek_eq, if_pos hk]
  exact reads_advance_pure.2 ⟨rfl, hp.eq_advance⟩

theorem reads_accept_none {wanted : Kind → Bool} (hk : wanted c.peek.kind = false) :
    (accept wanted).Reads c none c := by
  simp [accept, hk]

/-- A token of a class that is wanted is passed, and another one is left alone. -/
theorem cases_of_accept {wanted : Kind → Bool} {o : Option Token} (heof : wanted .eof = false)
    (hclose : c.close.kind = .eof) (h : (accept wanted).Reads c o c') :
    (∃ t, o = some t ∧ wanted t.kind = true ∧ c.Passes [t] c') ∨
      (o = none ∧ wanted c.peek.kind = false ∧ c' = c) := by
  rw [accept, reads_peek_bind] at h
  split_ifs at h with hk
  · obtain ⟨rfl, rfl⟩ := reads_advance_pure.1 h
    have hne : c.peek.kind ≠ .eof := fun he => by simp [he, heof] at hk
    exact .inl ⟨_, rfl, hk, Cursor.passes_advance hclose hne⟩
  · obtain ⟨rfl, rfl⟩ := reads_pure.1 h
    exact .inr ⟨rfl, by simpa using hk, rfl⟩

/-! ### Failing is reported -/

/-- If the rule fails, it has reported the fault it fails with. -/
def Loud (rule : Rule α) : Prop :=
  ∀ c fault, (rule c).outcome = .error fault → fault ∈ (rule c).reports

@[simp] theorem loud_pure : Loud (pure a : Rule α) := by
  intro c fault h
  cases h

@[simp] theorem loud_bind {rule : Rule α} {next : α → Rule β} (hr : Loud rule)
    (hn : ∀ a, Loud (next a)) : Loud (rule >>= next) := by
  intro c fault h
  have hc := hr c
  simp only [bind] at h ⊢
  rcases hrule : rule c with ⟨other | a, d, reports⟩
  · simp only [hrule] at h hc ⊢
    cases h
    exact hc _ rfl
  · simp only [hrule] at h ⊢
    exact List.mem_append_right _ (hn a d fault h)

@[simp] theorem loud_map {rule : Rule α} {f : α → β} (hr : Loud rule) : Loud (f <$> rule) :=
  loud_bind hr fun _ => loud_pure

@[simp] theorem loud_update {f : Cursor → Cursor} : Loud (update f) := by
  intro c fault h
  cases h

@[simp] theorem loud_peek : Loud peek := by
  intro c fault h
  cases h

@[simp] theorem loud_ahead : Loud ahead := by
  intro c fault h
  cases h

@[simp] theorem loud_loops : Loud loops := by
  intro c fault h
  cases h

@[simp] theorem loud_advance : Loud advance := by
  intro c fault h
  cases h

@[simp] theorem loud_report {t : Token} {error : SyntaxError} : Loud (report t error) := by
  intro c fault h
  cases h

@[simp] theorem loud_fail {t : Token} {error : SyntaxError} : Loud (fail t error : Rule α) := by
  intro c fault h
  cases h
  exact List.mem_singleton_self _

@[simp] theorem loud_recover {rule : Rule α} {instead : SyntaxFault → α} :
    Loud (recover rule instead) := by
  intro c fault h
  simp only [recover] at h
  split at h <;> cases h

@[simp] theorem loud_accept {wanted : Kind → Bool} : Loud (accept wanted) := by
  refine loud_bind loud_peek fun token => ?_
  split <;> simp

@[simp] theorem loud_expect {kind : Kind} {what : String} : Loud (expect kind what) := by
  refine loud_bind loud_peek fun token => ?_
  split <;> simp

theorem loud_nested {rule : Rule α} (h : Loud rule) : Loud (nested rule) :=
  loud_bind loud_update fun _ => loud_bind h fun _ => loud_bind loud_update fun _ => loud_pure

theorem loud_tooDeep : Loud (tooDeep : Rule α) :=
  loud_bind loud_update fun _ => loud_bind loud_peek fun _ => loud_fail

theorem loud_manyUntil {stop : Kind} {item : Rule α} (h : Loud item) (bound : List Token) :
    Loud (manyUntil stop item bound) := by
  induction bound with
  | nil => exact loud_pure
  | cons _ more ih =>
    refine loud_bind loud_peek fun token => ?_
    dsimp only
    split
    · exact loud_pure
    · exact loud_bind h fun _ => loud_bind ih fun _ => loud_pure

theorem loud_many {stop : Kind} {item : Rule α} (h : Loud item) : Loud (many stop item) :=
  loud_bind loud_ahead fun bound => loud_manyUntil h bound

/-- A rule that has reported nothing has read something. -/
theorem Loud.reads {rule : Rule α} (h : Loud rule) (hs : (rule c).reports = []) :
    ∃ a c', rule.Reads c a c' := by
  have hc := h c
  unfold Reads
  rcases hrule : rule c with ⟨fault | a, d, reports⟩
  · simp only [hrule] at hc hs
    have hmem := hc fault rfl
    simp [hs] at hmem
  · simp only [hrule] at hs
    exact ⟨a, d, by rw [hs]⟩

/-- Recovery changes nothing about a clean reading. -/
theorem reads_recover {rule : Rule α} {instead : SyntaxFault → α} (h : Loud rule) :
    (recover rule instead).Reads c a c' ↔ rule.Reads c a c' := by
  have hc := h c
  simp only [Reads, recover]
  rcases hrule : rule c with ⟨fault | x, d, reports⟩
  · simp only [hrule] at hc
    have hne : reports ≠ [] := List.ne_nil_of_mem (hc fault rfl)
    simp [hne]
  · simp

/-! ### Repetition -/

/-- What clean readings of single items say of the tokens they pass, a clean reading of many items
says of the tokens it passes. It ends at a stop, unless the bound has been too short. -/
theorem manyUntil_passes {stop : Kind} {item : Rule α} {loops : Nat}
    {P : List Token → α → Prop} {Q : List Token → List α → Prop}
    (hitem : ∀ {c a c'}, c.close.kind = .eof → c.loops = loops → item.Reads c a c' →
      ∃ ts, c.Passes ts c' ∧ ts ≠ [] ∧ P ts a)
    (hnil : Q [] []) (hcons : ∀ {ts us a as}, P ts a → Q us as → Q (ts ++ us) (a :: as)) :
    ∀ {bound c as c'}, c.close.kind = .eof → c.loops = loops →
      (manyUntil stop item bound).Reads c as c' →
      ∃ ts, c.Passes ts c' ∧ Q ts as ∧
        (c.ahead.length ≤ bound.length → c'.peek.kind = stop ∨ c'.peek.kind = .eof) := by
  intro bound
  induction bound with
  | nil =>
    intro c as c' hclose _ h
    obtain ⟨rfl, rfl⟩ := reads_pure.1 h
    refine ⟨[], Cursor.passes_nil.2 rfl, hnil, fun hlen => .inr ?_⟩
    rw [Cursor.peek, List.length_eq_zero_iff.1 (Nat.le_zero.1 hlen)]
    exact hclose
  | cons _ more ih =>
    intro c as c' hclose hloops h
    rw [manyUntil, reads_peek_bind] at h
    simp only [reads_ite, reads_bind, reads_pure] at h
    split_ifs at h with hstop
    · obtain ⟨rfl, rfl⟩ := h
      exact ⟨[], Cursor.passes_nil.2 rfl, hnil, fun _ => hstop⟩
    · obtain ⟨a, d, ha, rest, e, hrest, rfl, rfl⟩ := h
      obtain ⟨ts, hts, hne, hP⟩ := hitem hclose hloops ha
      obtain ⟨us, hus, hQ, hend⟩ := ih (hts.close_kind hclose) (hts.loops.trans hloops) hrest
      refine ⟨ts ++ us, hts.trans hus, hcons hP hQ, fun hlen => hend ?_⟩
      have hpos := List.length_pos_iff.2 hne
      have hahead := congrArg List.length hts.ahead
      simp only [List.length_append, List.length_cons] at hahead hlen
      omega

/-- One more item in front of a clean reading of many. -/
theorem reads_manyUntil_cons {stop : Kind} {item : Rule α} {bound : List Token} {as : List α}
    {d : Cursor} (hpos : 0 < bound.length) (hstop : c.peek.kind ≠ stop) (heof : c.peek.kind ≠ .eof)
    (hitem : item.Reads c a d) (hrest : (manyUntil stop item bound.tail).Reads d as c') :
    (manyUntil stop item bound).Reads c (a :: as) c' := by
  obtain _ | ⟨_, more⟩ := bound
  · exact absurd hpos (by simp)
  · rw [manyUntil, reads_peek_bind, if_neg (by simp [hstop, heof])]
    simp only [reads_bind, reads_pure]
    exact ⟨a, d, hitem, as, c', hrest, rfl, rfl⟩

/-- At a stop nothing more is read. -/
theorem reads_manyUntil_nil {stop : Kind} {item : Rule α} {bound : List Token}
    (hstop : c.peek.kind = stop ∨ c.peek.kind = .eof) :
    (manyUntil stop item bound).Reads c [] c := by
  obtain _ | ⟨_, more⟩ := bound
  · exact reads_pure.2 ⟨rfl, rfl⟩
  · rw [manyUntil, reads_peek_bind, if_pos hstop]
    exact reads_pure.2 ⟨rfl, rfl⟩

end Rule

end Lox

import Lox.Proofs.IndexedReading
import Lox.Proofs.Progress

/-!
# Following a rule by index

A rule that reads by index follows a rule over cursors if it reads the same tokens and
has the same results and reports, and is not halted. This holds of the basic rules, and
it is handed on to sequences, to rules around rules and to loops. A cursor is in the
list where the tokens ahead are the rest of the list, so its place is never outside.
-/
namespace Lox

namespace Cursor

/-- The place of a cursor in the list of all tokens. -/
def place (c : Cursor) : Place := ⟨c.position, c.depth, c.loops⟩

/-- The cursor stands in the list, and `room` more levels of nesting may be opened there. -/
structure In (tokens : List Token) (room : Nat) (c : Cursor) : Prop where
  drop_eq : tokens.drop c.position = c.ahead ++ [c.close]
  close_kind : c.close.kind = .eof
  ahead_kind : ∀ t ∈ c.ahead, t.kind ≠ .eof
  depth_add : c.depth + room = Rule.maxDepth

variable {tokens : List Token} {room : Nat} {c d : Cursor}

theorem In.getElem?_position (h : c.In tokens room) : tokens[c.position]? = some c.peek := by
  have hhead : (tokens.drop c.position)[0]? = some c.peek := by
    rw [h.drop_eq, peek]
    cases c.ahead <;> rfl
  rwa [List.getElem?_drop, Nat.add_zero] at hhead

theorem In.length_lt (h : c.In tokens room) : c.ahead.length < tokens.length := by
  have hlength := congrArg List.length h.drop_eq
  rw [List.length_drop, List.length_append, List.length_singleton] at hlength
  omega

theorem In.depth_le (h : c.In tokens room) : c.depth ≤ Rule.maxDepth + 1 := by
  have hdepth := h.depth_add
  omega

theorem In.peek_kind_ne (h : c.In tokens room) (hahead : c.ahead ≠ []) : c.peek.kind ≠ .eof :=
  h.ahead_kind _ (peek_mem hahead)

theorem In.ahead_ne_nil (h : c.In tokens room) (hpeek : c.peek.kind ≠ .eof) : c.ahead ≠ [] := by
  exact fun hnil => hpeek (peek_kind_of_nil h.close_kind hnil)

theorem In.passes {ts : List Token} (h : c.In tokens room) (hpasses : c.Passes ts d) :
    d.In tokens room where
  drop_eq := by
    rw [hpasses.position, ← List.drop_drop, h.drop_eq, hpasses.ahead, List.append_assoc,
      List.drop_left, hpasses.close]
  close_kind := hpasses.close_kind h.close_kind
  ahead_kind t ht := h.ahead_kind t (hpasses.ahead ▸ List.mem_append_right ts ht)
  depth_add := by rw [hpasses.depth, h.depth_add]

theorem In.advance (h : c.In tokens room) : c.advance.In tokens room := by
  obtain ⟨ts, hts⟩ := c.exists_passes_advance
  exact h.passes hts

theorem In.deeper (h : c.In tokens (room + 1)) : c.deeper.In tokens room := by
  have hdepth : c.depth + 1 + room = Rule.maxDepth := by
    have hroom := h.depth_add
    omega
  exact ⟨h.drop_eq, h.close_kind, h.ahead_kind, hdepth⟩

theorem In.withLoops (h : c.In tokens room) (loops : Nat) : (c.withLoops loops).In tokens room :=
  ⟨h.drop_eq, h.close_kind, h.ahead_kind, h.depth_add⟩

end Cursor

namespace Indexed

variable {α β : Type} {tokens : List Token} {room rounds : Nat} {c d : Cursor} {p q : Place}

/-! ### What is read at a place -/

section Steps

variable {g : Indexed α} {f : α → Indexed β} {a : α} {reports : List SyntaxFault}

/-- The second rule reads on from where the first one ends. -/
theorem bind_of_ok {step : IndexedStep β} (h : g tokens p = .ok ⟨.ok a, q, reports⟩)
    (hf : f a tokens q = .ok step) :
    (g >>= f) tokens p = .ok { step with reports := reports ++ step.reports } := by
  simp only [bind, h, hf]

theorem bind_of_error {fault : SyntaxFault} (h : g tokens p = .ok ⟨.error fault, q, reports⟩) :
    (g >>= f) tokens p = .ok ⟨.error fault, q, reports⟩ := by
  simp only [bind, h]

/-- A second rule without reports adds none. -/
theorem bind_of_ok_quiet {outcome : Except SyntaxFault β} {p' : Place}
    (h : g tokens p = .ok ⟨.ok a, q, reports⟩) (hf : f a tokens q = .ok ⟨outcome, p', []⟩) :
    (g >>= f) tokens p = .ok ⟨outcome, p', reports⟩ := by
  rw [bind_of_ok h hf, List.append_nil]

/-- A first rule without reports does not show. -/
theorem bind_of_quiet (h : g tokens p = .ok ⟨.ok a, q, []⟩) :
    (g >>= f) tokens p = f a tokens q := by
  simp only [bind, h]
  cases f a tokens q with
  | error halt => rfl
  | ok step => rfl

end Steps

theorem token_eq {n : Nat} {t : Token} (h : tokens[n]? = some t) :
    token n tokens p = .ok ⟨.ok t, p, []⟩ := by
  simp [token, h]

theorem setCounters_eq (depth loops : Nat) (h : depth ≤ Rule.maxDepth + 1) :
    setCounters depth loops tokens p = .ok ⟨.ok (), ⟨p.current, depth, loops⟩, []⟩ := by
  have hrange : (0 : Int) ≤ depth ∧ (depth : Int) ≤ Rule.maxDepth + 1 ∧ (0 : Int) ≤ loops := by
    omega
  rw [setCounters, if_pos hrange]

theorem place_eq : place tokens p = .ok ⟨.ok p, p, []⟩ := rfl

theorem peek_eq (hc : c.In tokens room) : peek tokens c.place = .ok ⟨.ok c.peek, c.place, []⟩ :=
  (bind_of_quiet place_eq).trans (token_eq hc.getElem?_position)

/-- Behind a token, the token is found by looking back. -/
theorem previous_eq (hc : c.In tokens room) (h : c.ahead ≠ []) :
    previous tokens c.advance.place = .ok ⟨.ok c.peek, c.advance.place, []⟩ := by
  have hposition : c.advance.place.current - 1 = c.position := by
    obtain ⟨t, rest, hahead⟩ := List.exists_cons_of_ne_nil h
    simp [Cursor.advance, hahead, Cursor.place]
  refine (bind_of_quiet place_eq).trans ?_
  rw [hposition]
  exact token_eq hc.getElem?_position

theorem advance_eq (hc : c.In tokens room) (h : c.peek.kind ≠ .eof) :
    advance tokens c.place = .ok ⟨.ok c.peek, c.advance.place, []⟩ := by
  have hahead := hc.ahead_ne_nil h
  have hgoTo : goTo (c.place.current + 1) tokens c.place = .ok ⟨.ok (), c.advance.place, []⟩ := by
    obtain ⟨t, rest, hcons⟩ := List.exists_cons_of_ne_nil hahead
    simp [goTo, Cursor.advance, hcons, Cursor.place]
  refine (bind_of_quiet (peek_eq hc)).trans ?_
  rw [if_pos h]
  refine (bind_of_quiet place_eq).trans ((bind_of_quiet hgoTo).trans ?_)
  exact previous_eq hc hahead

/-- At the end there is a token to look back at, unless there are no tokens at all. -/
theorem exists_advance_eq (hc : c.In tokens room) (h : c.ahead = []) (hposition : 0 < c.position) :
    ∃ t, advance tokens c.place = .ok ⟨.ok t, c.place, []⟩ := by
  have heof := Cursor.peek_kind_of_nil hc.close_kind h
  have hlength := hc.length_lt
  have hdrop := congrArg List.length hc.drop_eq
  rw [List.length_drop, List.length_append, List.length_singleton] at hdrop
  have hindex : c.place.current - 1 = (c.position - 1 : Nat) := by
    change (c.position : Int) - 1 = _
    omega
  have hlt : c.position - 1 < tokens.length := by omega
  refine ⟨tokens[c.position - 1], (bind_of_quiet (peek_eq hc)).trans ?_⟩
  rw [if_neg (not_not_intro heof)]
  refine (bind_of_quiet place_eq).trans ?_
  rw [hindex]
  exact token_eq (List.getElem?_eq_getElem hlt)

/-! ### Following a rule -/

/-- From the place of the cursor, the indexed rule does what the rule does. The loops that are open
are changed back also if it fails. -/
def FollowsAt (tokens : List Token) (g : Indexed α) (rule : Rule α) (c : Cursor) : Prop :=
  g tokens c.place =
      .ok ⟨(rule c).outcome, ((rule c).cursor.withLoops c.loops).place, (rule c).reports⟩ ∧
    (rule c).cursor.depth ≤ Rule.maxDepth + 1

/-- The indexed rule does what the rule does, wherever `room` more levels may be opened. -/
structure Follows (tokens : List Token) (room : Nat) (g : Indexed α) (rule : Rule α) : Prop where
  composed : rule.Composed
  run : ∀ c, c.In tokens room → FollowsAt tokens g rule c

theorem FollowsAt.congr {g : Indexed α} {rule rule' : Rule α} (h : FollowsAt tokens g rule' c)
    (heq : rule c = rule' c) : FollowsAt tokens g rule c := by
  unfold FollowsAt at h ⊢
  rw [heq]
  exact h

section Sequence

variable {g : Indexed α} {f : α → Indexed β} {rule : Rule α} {next : α → Rule β}

theorem FollowsAt.bind (hg : FollowsAt tokens g rule c) (hcomposed : rule.Composed)
    (hf : ∀ a d reports, rule c = ⟨.ok a, d, reports⟩ → FollowsAt tokens (f a) (next a) d) :
    FollowsAt tokens (g >>= f) (rule >>= next) c := by
  obtain ⟨hrun, hdepth⟩ := hg
  rcases hrule : rule c with ⟨fault | a, d, reports⟩
  · rw [hrule] at hrun hdepth
    unfold FollowsAt
    rw [Rule.bind_of_error hrule]
    exact ⟨bind_of_error hrun, hdepth⟩
  · obtain ⟨ts, hts⟩ := hcomposed.passes_of_ok hrule
    obtain ⟨hnext, hdepth'⟩ := hf a d reports hrule
    rw [hrule] at hrun
    have hplace : (d.withLoops c.loops).place = d.place := by rw [← hts.loops]; rfl
    unfold FollowsAt
    rw [Rule.bind_of_ok hrule]
    refine ⟨?_, hdepth'⟩
    rw [hts.loops] at hnext
    exact bind_of_ok (hplace ▸ hrun) hnext

/-- Where a rule has a result, there are still `room` levels. -/
theorem in_of_ok {a : α} {reports : List SyntaxFault} (hcomposed : rule.Composed)
    (hc : c.In tokens room) (h : rule c = ⟨.ok a, d, reports⟩) : d.In tokens room := by
  obtain ⟨ts, hts⟩ := hcomposed.passes_of_ok h
  exact hc.passes hts

theorem Follows.bind (hg : Follows tokens room g rule)
    (hf : ∀ a, Follows tokens room (f a) (next a)) :
    Follows tokens room (g >>= f) (rule >>= next) where
  composed := hg.composed.bind fun a => (hf a).composed
  run c hc := (hg.run c hc).bind hg.composed fun a d _ h =>
    (hf a).run d (in_of_ok hg.composed hc h)

end Sequence

theorem followsAt_of_stays {g : Indexed α} {rule : Rule α} (hc : c.In tokens room)
    (hcursor : (rule c).cursor = c)
    (hg : g tokens c.place = .ok ⟨(rule c).outcome, c.place, (rule c).reports⟩) :
    FollowsAt tokens g rule c := by
  refine ⟨?_, hcursor.symm ▸ hc.depth_le⟩
  rw [hcursor]
  exact hg

theorem follows_pure (a : α) : Follows tokens room (pure a) (pure a) :=
  ⟨.pure a, fun _ hc => followsAt_of_stays hc rfl rfl⟩

theorem follows_fail (t : Token) (error : SyntaxError) :
    Follows tokens room (fail t error : Indexed α) (Rule.fail t error) :=
  ⟨.fail t error, fun _ hc => followsAt_of_stays hc rfl rfl⟩

theorem follows_report (t : Token) (error : SyntaxError) :
    Follows tokens room (report t error) (Rule.report t error) :=
  ⟨.report t error, fun _ hc => followsAt_of_stays hc rfl rfl⟩

theorem follows_peek : Follows tokens room peek Rule.peek :=
  ⟨.peek, fun _ hc => followsAt_of_stays hc rfl (peek_eq hc)⟩

theorem FollowsAt.place_bind {f : Place → Indexed α} {rule : Rule α}
    (h : FollowsAt tokens (f c.place) rule c) : FollowsAt tokens (place >>= f) rule c :=
  ⟨(bind_of_quiet place_eq).trans h.1, h.2⟩

theorem FollowsAt.peek_bind {f : Token → Indexed α} {next : Token → Rule α}
    (hc : c.In tokens room) (h : FollowsAt tokens (f c.peek) (next c.peek) c) :
    FollowsAt tokens (peek >>= f) (Rule.peek >>= next) c := by
  refine (follows_peek.run c hc).bind .peek fun a d reports ha => ?_
  cases ha
  exact h

theorem loops_advance (c : Cursor) : c.advance.loops = c.loops := by
  obtain ⟨ts, hts⟩ := c.exists_passes_advance
  exact hts.loops

theorem followsAt_advance (hc : c.In tokens room) (hpeek : c.peek.kind ≠ .eof) :
    FollowsAt tokens advance (Rule.advance >>= fun _ => pure c.peek) c := by
  refine ⟨?_, hc.advance.depth_le⟩
  change advance tokens c.place = .ok ⟨.ok c.peek, (c.advance.withLoops c.loops).place, []⟩
  rw [advance_eq hc hpeek, ← loops_advance c]
  rfl

theorem FollowsAt.advance_bind {f : Token → Indexed α} {next : Unit → Rule α}
    (hc : c.In tokens room) (hpeek : c.peek.kind ≠ .eof)
    (h : FollowsAt tokens (f c.peek) (next ()) c.advance) :
    FollowsAt tokens (advance >>= f) (Rule.advance >>= next) c := by
  obtain ⟨hrun, hdepth⟩ := h
  rw [loops_advance] at hrun
  exact ⟨(bind_of_quiet (advance_eq hc hpeek)).trans hrun, hdepth⟩

/-- A word that is seen is passed, and its token is what is looked back at. -/
theorem FollowsAt.word {f : Token → Indexed α} {next : Unit → Rule α} {kind : Kind}
    (hc : c.In tokens room) (hkind : c.peek.kind = kind) (hne : kind ≠ .eof)
    (h : Follows tokens room (f c.peek) (next ())) :
    FollowsAt tokens (advance >>= f) (Rule.advance >>= next) c :=
  .advance_bind hc (hkind ▸ hne) (h.run _ hc.advance)

theorem follows_accept {wanted : Kind → Bool} (heof : wanted .eof = false) :
    Follows tokens room (accept wanted) (Rule.accept wanted) := by
  refine ⟨.accept, fun c hc => .peek_bind hc ?_⟩
  split
  · next h =>
    have hne : c.peek.kind ≠ .eof := by
      intro hkind
      rw [hkind, heof] at h
      cases h
    exact .word hc rfl hne (follows_pure _)
  · exact (follows_pure _).run c hc

theorem follows_expect {kind : Kind} {what : String} (hne : kind ≠ .eof) :
    Follows tokens room (expect kind what) (Rule.expect kind what) := by
  refine ⟨.expect, fun c hc => .peek_bind hc ?_⟩
  split
  · next hkind => exact followsAt_advance hc (hkind ▸ hne)
  · exact (follows_fail _ _).run c hc

theorem follows_superclass :
    Follows tokens room superclass Rule.superclass := by
  refine (follows_accept rfl).bind fun o => ?_
  cases o with
  | none => exact follows_pure _
  | some less => exact (follows_expect (by decide)).bind fun _ => follows_pure _

/-! ### Nesting and loops that are open -/

theorem setCounters_deeper (h : c.depth ≤ Rule.maxDepth) :
    setCounters (c.place.depth + 1) c.place.loops tokens c.place =
      .ok ⟨.ok (), c.deeper.place, []⟩ :=
  setCounters_eq (c.depth + 1) c.loops (by omega)

/-- A level too many is reported. -/
theorem follows_nested_zero (g : Indexed α) : Follows tokens 0 (nested g) Rule.tooDeep := by
  refine ⟨.tooDeep, fun c hc => ?_⟩
  have hdepth : c.depth = Rule.maxDepth := hc.depth_add
  have hover : (Rule.maxDepth : Int) < c.place.depth + 1 := by
    change (Rule.maxDepth : Int) < c.depth + 1
    omega
  have henter : enter tokens c.place = .ok ⟨.error ⟨c.peek, .tooDeep⟩, c.deeper.place,
      [⟨c.peek, .tooDeep⟩]⟩ := by
    refine (bind_of_quiet place_eq).trans ((bind_of_quiet (setCounters_deeper hdepth.le)).trans ?_)
    rw [if_pos hover]
    refine (bind_of_quiet ?_).trans rfl
    exact (bind_of_quiet place_eq).trans (token_eq hc.getElem?_position)
  exact ⟨bind_of_error henter, by change c.depth + 1 ≤ _; omega⟩

theorem Follows.nested {g : Indexed α} {rule : Rule α} (h : Follows tokens room g rule) :
    Follows tokens (room + 1) (nested g) (Rule.nested rule) := by
  refine ⟨.nested h.composed, fun c hc => ?_⟩
  have hroom : c.depth + (room + 1) = Rule.maxDepth := hc.depth_add
  have hunder : ¬(Rule.maxDepth : Int) < c.place.depth + 1 := by
    change ¬(Rule.maxDepth : Int) < c.depth + 1
    omega
  have henter : enter tokens c.place = .ok ⟨.ok (), c.deeper.place, []⟩ := by
    have hset := @setCounters_deeper tokens c (by omega)
    refine (bind_of_quiet place_eq).trans ((bind_of_quiet hset).trans ?_)
    rw [if_neg hunder]
    rfl
  obtain ⟨hrun, hdepth⟩ := h.run c.deeper hc.deeper
  unfold FollowsAt
  rw [Rule.nested_eq, Step.closeWith]
  rcases hrule : rule c.deeper with ⟨fault | a, d, reports⟩
  · rw [hrule] at hrun hdepth
    exact ⟨(bind_of_quiet henter).trans (bind_of_error hrun), hdepth⟩
  · rw [hrule] at hrun hdepth
    obtain ⟨ts, hts⟩ := h.composed.passes_of_ok hrule
    have hd : d.depth = c.depth + 1 := hts.depth
    have hleave : leave tokens (d.withLoops c.loops).place =
        .ok ⟨.ok (), (d.shallower.withLoops c.loops).place, []⟩ := by
      have hback : (d.withLoops c.loops).place.depth - 1 = (d.shallower.depth : Int) := by
        change (d.depth : Int) - 1 = (d.depth - 1 : Nat)
        omega
      refine (bind_of_quiet place_eq).trans ?_
      rw [hback]
      exact setCounters_eq d.shallower.depth c.loops (by change d.depth - 1 ≤ _; omega)
    refine ⟨(bind_of_quiet henter).trans ?_, by change d.depth - 1 ≤ _; omega⟩
    exact bind_of_ok_quiet hrun (bind_of_quiet hleave)

theorem caught_eq {g : Indexed α} {step : IndexedStep α} (h : g tokens p = .ok step) :
    caught g tokens p = .ok ⟨.ok step.outcome, step.place, step.reports⟩ := by
  simp only [caught, h]

/-- The loops that are open are changed back, also by a rule that fails. -/
theorem followsAt_withLoops {g : Indexed α} {rule outer : Rule α} {loops : Nat} {back : Int → Int}
    {after : Cursor → Cursor} (h : Follows tokens room g rule) (hc : c.In tokens room)
    (hback : back loops = c.loops) (heq : outer c = (rule (c.withLoops loops)).closeWith after)
    (hafter : ∀ d : Cursor, (after d).position = d.position ∧ (after d).depth = d.depth) :
    FollowsAt tokens (withLoops loops back g) outer c := by
  obtain ⟨hrun, hdepth⟩ := h.run (c.withLoops loops) (hc.withLoops loops)
  have hopen : setCounters c.place.depth loops tokens c.place =
      .ok ⟨.ok (), (c.withLoops loops).place, []⟩ :=
    setCounters_eq c.depth loops (hc.depth_le)
  have hwith (d : Cursor) (outcome : Except SyntaxFault α) (reports : List SyntaxFault)
      (hd : d.depth ≤ Rule.maxDepth + 1)
      (hg : g tokens (c.withLoops loops).place =
        .ok ⟨outcome, (d.withLoops loops).place, reports⟩) :
      withLoops loops back g tokens c.place =
        .ok ⟨outcome, (d.withLoops c.loops).place, reports⟩ := by
    have hclose : setCounters (d.withLoops loops).place.depth (back (d.withLoops loops).place.loops)
        tokens (d.withLoops loops).place = .ok ⟨.ok (), (d.withLoops c.loops).place, []⟩ := by
      change setCounters d.depth (back loops) tokens _ = _
      rw [hback]
      exact setCounters_eq d.depth c.loops hd
    refine (bind_of_quiet place_eq).trans ((bind_of_quiet hopen).trans ?_)
    exact bind_of_ok_quiet (caught_eq hg) ((bind_of_quiet place_eq).trans (bind_of_quiet hclose))
  unfold FollowsAt
  rw [heq, Step.closeWith]
  rcases hrule : rule (c.withLoops loops) with ⟨fault | a, d, reports⟩
  · rw [hrule] at hrun hdepth
    exact ⟨hwith d _ _ hdepth hrun, hdepth⟩
  · rw [hrule] at hrun hdepth
    obtain ⟨hposition, hd⟩ := hafter d
    have hplace : ((after d).withLoops c.loops).place = (d.withLoops c.loops).place := by
      change (⟨(after d).position, (after d).depth, c.loops⟩ : Place) = _
      rw [hposition, hd]
      rfl
    refine ⟨(hwith d _ _ hdepth hrun).trans ?_, hd.symm ▸ hdepth⟩
    rw [← hplace]

theorem Follows.inLoop {g : Indexed α} {rule : Rule α} (h : Follows tokens room g rule) :
    Follows tokens room (inLoop g) (Rule.inLoop rule) := by
  refine ⟨.inLoop h.composed, fun c hc => .place_bind ?_⟩
  have hback : ((c.loops + 1 : Nat) : Int) - 1 = c.loops := by omega
  exact followsAt_withLoops h hc hback (Rule.inLoop_eq rule c) fun _ => ⟨rfl, rfl⟩

theorem Follows.outsideLoops {g : Indexed α} {rule : Rule α} (h : Follows tokens room g rule) :
    Follows tokens room (outsideLoops g) (Rule.outsideLoops rule) := by
  refine ⟨.outsideLoops h.composed, fun c hc => .place_bind ?_⟩
  exact followsAt_withLoops h hc rfl (Rule.outsideLoops_eq rule c) fun _ => ⟨rfl, rfl⟩

/-! ### Recovery -/

theorem place_resync (hahead : c.ahead ≠ []) (h : Cursor.resume c.ahead = c.advance.ahead) :
    c.resync.place = c.advance.place := by
  obtain ⟨ahead, close, position, depth, loops⟩ := c
  obtain ⟨t, rest, rfl⟩ := List.exists_cons_of_ne_nil hahead
  have h : Cursor.resume (t :: rest) = rest := h
  simp [Cursor.resync, Cursor.advance, Cursor.place, h]

/-- Where reading does not resume behind a token, the token can as well be passed before. -/
theorem place_resync_advance (hahead : c.ahead ≠ [])
    (h : Cursor.resume c.ahead = Cursor.resume c.advance.ahead) :
    c.resync.place = c.advance.resync.place := by
  obtain ⟨ahead, close, position, depth, loops⟩ := c
  obtain ⟨t, rest, rfl⟩ := List.exists_cons_of_ne_nil hahead
  have h : Cursor.resume (t :: rest) = Cursor.resume rest := h
  obtain ⟨ts, hts⟩ := Cursor.exists_append_resume rest
  have hlength := congrArg List.length hts
  rw [List.length_append] at hlength
  simp only [Cursor.resync, Cursor.advance, Cursor.place, h, List.length_cons, Place.mk.injEq,
    and_true]
  omega

/-- Behind a token, the loop goes on to where reading resumes. -/
theorem resyncFrom_eq (hc : c.In tokens room) (hahead : c.ahead ≠ [])
    (hrounds : c.ahead.length ≤ rounds) :
    resyncFrom rounds tokens c.advance.place = .ok ⟨.ok (), c.resync.place, []⟩ := by
  induction rounds generalizing c with
  | zero => exact absurd (List.length_eq_zero_iff.1 (Nat.le_zero.1 hrounds)) hahead
  | succ rounds ih =>
    obtain ⟨t, rest, hcons⟩ := List.exists_cons_of_ne_nil hahead
    have hpeek : c.peek = t := by rw [Cursor.peek, hcons]; rfl
    have hrest : c.advance.ahead = rest := by rw [Cursor.advance, hcons]
    have hlook := peek_eq hc.advance
    have hback := previous_eq hc hahead
    have hstops (h : Cursor.resume c.ahead = c.advance.ahead) :
        (pure () : Indexed Unit) tokens c.advance.place = .ok ⟨.ok (), c.resync.place, []⟩ := by
      rw [place_resync hahead h]
      rfl
    refine (bind_of_quiet hlook).trans ?_
    cases rest with
    | nil =>
      have heof := Cursor.peek_kind_of_nil hc.advance.close_kind hrest
      rw [if_pos heof]
      exact hstops (by rw [hcons, hrest, Cursor.resume])
    | cons next rest =>
      have hnext : c.advance.peek = next := by rw [Cursor.peek, hrest]; rfl
      have hne := hc.advance.peek_kind_ne (hrest ▸ List.cons_ne_nil next rest)
      rw [if_neg hne]
      refine (bind_of_quiet hback).trans ?_
      split
      · next hsemicolon =>
        rw [hpeek] at hsemicolon
        exact hstops (by simp [hcons, hrest, Cursor.resume, hsemicolon])
      · next hsemicolon =>
        refine (bind_of_quiet hlook).trans ?_
        split
        · next hstarts =>
          rw [hnext] at hstarts
          exact hstops (by simp [hcons, hrest, Cursor.resume, hstarts])
        · next hstarts =>
          refine (bind_of_quiet (advance_eq hc.advance hne)).trans ?_
          rw [hpeek] at hsemicolon
          rw [hnext] at hstarts
          have hresume : Cursor.resume c.ahead = Cursor.resume c.advance.ahead := by
            rw [hcons, hrest, Cursor.resume, if_neg (by simp [hsemicolon, hstarts])]
          rw [place_resync_advance hahead hresume]
          refine ih hc.advance (hrest ▸ List.cons_ne_nil next rest) ?_
          rw [hcons] at hrounds
          rw [hrest]
          simp only [List.length_cons] at hrounds ⊢
          omega

theorem resync_eq (hc : c.In tokens room) (hposition : c.ahead = [] → 0 < c.position)
    (hrounds : c.ahead.length < rounds) :
    resync rounds tokens c.place = .ok ⟨.ok (), c.resync.place, []⟩ := by
  by_cases hahead : c.ahead = []
  · obtain ⟨t, hadvance⟩ := exists_advance_eq hc hahead (hposition hahead)
    obtain ⟨more, rfl⟩ : ∃ more, rounds = more + 1 := ⟨rounds - 1, by omega⟩
    have heof := Cursor.peek_kind_of_nil hc.close_kind hahead
    have hresync : c.resync.place = c.place := by
      simp [Cursor.resync, hahead, Cursor.resume, Cursor.place]
    refine (bind_of_quiet hadvance).trans ((bind_of_quiet (peek_eq hc)).trans ?_)
    rw [if_pos heof, hresync]
    rfl
  · refine (bind_of_quiet (advance_eq hc (hc.peek_kind_ne hahead))).trans ?_
    exact resyncFrom_eq hc hahead hrounds.le

/-- Before the end, a failure is recovered from: there is a token to look back at. -/
theorem FollowsAt.recover {g : Indexed α} {rule : Rule α} {instead : SyntaxFault → α}
    (h : FollowsAt tokens g rule c) (hcomposed : rule.Composed) (hc : c.In tokens room)
    (hahead : c.ahead ≠ []) (hrounds : tokens.length ≤ rounds) :
    FollowsAt tokens (recover rounds g instead) (Rule.recover rule instead) c := by
  obtain ⟨hrun, hdepth⟩ := h
  obtain ⟨ts, hts⟩ := hcomposed.forward.passes c
  unfold FollowsAt Rule.recover
  rcases hrule : rule c with ⟨fault | a, d, reports⟩
  · rw [hrule] at hrun hts
    have hts : c.Passes ts (d.reopen c) := hts
    have hd : (d.reopen c).In tokens room := hc.passes hts
    have hreopen : setCounters c.place.depth c.place.loops tokens (d.withLoops c.loops).place =
        .ok ⟨.ok (), (d.reopen c).place, []⟩ :=
      setCounters_eq c.depth c.loops (hc.depth_le)
    have hposition : (d.reopen c).ahead = [] → 0 < (d.reopen c).position := by
      intro hnil
      have hlength := congrArg List.length hts.ahead
      have hpos := List.length_pos_of_ne_nil hahead
      rw [List.length_append, hnil, List.length_nil] at hlength
      have hposition := hts.position
      omega
    have hresync := resync_eq hd hposition (hd.length_lt.trans_le hrounds)
    refine ⟨(bind_of_quiet place_eq).trans ?_, ?_⟩
    · exact bind_of_ok_quiet (caught_eq hrun)
        ((bind_of_quiet hreopen).trans (bind_of_quiet hresync))
    · change c.depth ≤ Rule.maxDepth + 1
      exact hc.depth_le
  · rw [hrule] at hrun hdepth
    refine ⟨(bind_of_quiet place_eq).trans ?_, hdepth⟩
    exact bind_of_ok_quiet (caught_eq hrun) rfl

/-- What passes a token and closes what it opens is not halted. -/
theorem FollowsAt.advancing {g : Indexed α} {rule : Rule α} {ts : List Token}
    (h : FollowsAt tokens g rule c) (hpasses : c.Passes ts (rule c).cursor) (hts : ts ≠ []) :
    FollowsAt tokens (advancing g) rule c := by
  obtain ⟨hrun, hdepth⟩ := h
  refine .place_bind ⟨?_, hdepth⟩
  rcases hrule : rule c with ⟨fault | a, d, reports⟩
  · rw [hrule] at hrun
    exact bind_of_error hrun
  · rw [hrule] at hrun hpasses
    have hwatch : c.place.current < (d.withLoops c.loops).place.current ∧
        (d.withLoops c.loops).place.depth = c.place.depth ∧
        (d.withLoops c.loops).place.loops = c.place.loops := by
      have hpos := List.length_pos_of_ne_nil hts
      have hposition : d.position = c.position + ts.length := hpasses.position
      have hd : d.depth = c.depth := hpasses.depth
      refine ⟨?_, congrArg Int.ofNat hd, rfl⟩
      change (c.position : Int) < d.position
      omega
    refine bind_of_ok_quiet hrun ((bind_of_quiet place_eq).trans ?_)
    rw [if_pos hwatch]
    rfl

/-! ### Loops -/

theorem followsAt_many {stop : Kind} {item : Indexed α} {rule : Rule α}
    (hcomposed : rule.Composed) (hconsumes : Rule.ConsumesBefore stop rule)
    (h : ∀ d, d.In tokens room → d.ahead ≠ [] → FollowsAt tokens item rule d)
    (hc : c.In tokens room) (hrounds : c.ahead.length < rounds) :
    FollowsAt tokens (many stop item rounds) (Rule.many stop rule) c := by
  induction rounds generalizing c with
  | zero => exact absurd hrounds (Nat.not_lt_zero _)
  | succ rounds ih =>
    refine FollowsAt.congr ?_ (Rule.many_eq hcomposed hconsumes hc.close_kind)
    refine .peek_bind hc ?_
    dsimp only
    split
    · exact (follows_pure _).run c hc
    · next hstop =>
      obtain ⟨hstop, heof⟩ := not_or.1 hstop
      refine (h c hc (hc.ahead_ne_nil heof)).bind hcomposed fun a d reports hitem => ?_
      have hlt := (hconsumes c hc.close_kind hstop heof).length_lt hitem
      have hd := in_of_ok hcomposed hc hitem
      refine (ih hd (by omega)).bind hcomposed.many fun as e more has => ?_
      exact (follows_pure _).run e (in_of_ok hcomposed.many hd has)

theorem follows_many {stop : Kind} {item : Indexed α} {rule : Rule α}
    (hcomposed : rule.Composed) (hconsumes : Rule.ConsumesBefore stop rule)
    (h : ∀ d, d.In tokens room → d.ahead ≠ [] → FollowsAt tokens item rule d)
    (hrounds : tokens.length ≤ rounds) :
    Follows tokens room (many stop item rounds) (Rule.many stop rule) :=
  ⟨hcomposed.many, fun _ hc =>
    followsAt_many hcomposed hconsumes h hc (hc.length_lt.trans_le hrounds)⟩

theorem followsAt_chainFrom {level : Rule.Level} {operand : Indexed Expr} {rule : Rule Expr}
    (heof : level.wanted .eof = false) (h : Follows tokens room operand rule) {left : Expr}
    (hc : c.In tokens room) (hrounds : c.ahead.length < rounds) :
    FollowsAt tokens (chainFrom level operand left rounds) (Rule.chainRest level rule left) c := by
  induction rounds generalizing c left with
  | zero => exact absurd hrounds (Nat.not_lt_zero _)
  | succ rounds ih =>
    refine FollowsAt.congr ?_ (Rule.chainRest_eq heof h.composed hc.close_kind)
    refine ((follows_accept heof).run c hc).bind .accept fun o d reports haccept => ?_
    have hd := in_of_ok .accept hc haccept
    cases o with
    | none => exact (follows_pure _).run d hd
    | some op =>
      refine (h.run d hd).bind h.composed fun right e more hright => ?_
      have hlt := Rule.length_lt_of_accept heof hc.close_kind haccept
      obtain ⟨ts, hts⟩ := h.composed.passes_of_ok hright
      have hle := hts.length_le
      exact ih (hd.passes hts) (by omega)

theorem Follows.chain {level : Rule.Level} {operand : Indexed Expr} {rule : Rule Expr}
    (h : Follows tokens room operand rule) (heof : level.wanted .eof = false)
    (hrounds : tokens.length ≤ rounds) :
    Follows tokens room (chain rounds level operand) (Rule.chain level rule) := by
  refine ⟨h.composed.chain, fun c hc => ?_⟩
  refine (h.run c hc).bind h.composed fun left d reports hleft => ?_
  have hd := in_of_ok h.composed hc hleft
  exact followsAt_chainFrom heof h hd (hd.length_lt.trans_le hrounds)

theorem followsAt_parametersFrom {count : Nat} (hc : c.In tokens room)
    (hrounds : c.ahead.length < rounds) :
    FollowsAt tokens (parametersFrom count rounds) (Rule.parametersRest count) c := by
  induction rounds generalizing c count with
  | zero => exact absurd hrounds (Nat.not_lt_zero _)
  | succ rounds ih =>
    refine FollowsAt.congr ?_ (Rule.parametersRest_eq hc.close_kind)
    unfold parametersFrom Rule.parametersRound
    dsimp only
    split
    -- a parameter too many is reported before it is read
    on_goal 1 =>
      refine .peek_bind hc (((follows_report _ _).run c hc).bind (.report _ _) fun _ d _ h => ?_)
      cases h
    all_goals
      refine ((follows_expect (by decide)).run c hc).bind .expect fun name d reports hname => ?_
      have hd := in_of_ok .expect hc hname
      refine ((follows_accept rfl).run d hd).bind .accept fun o e more haccept => ?_
      have he := in_of_ok .accept hd haccept
      cases o with
      | none => exact (follows_pure _).run e he
      | some comma =>
        have hfirst := (Rule.consumes_expect (by decide) c hc.close_kind).length_lt hname
        have hsecond := Rule.length_lt_of_accept rfl hd.close_kind haccept
        have hcomposed := (Rule.Composed.parametersRest (count + 1))
        refine (ih he (by omega)).bind hcomposed fun names e' _ hnames => ?_
        exact (follows_pure _).run e' (in_of_ok hcomposed he hnames)

theorem follows_parameters (hrounds : tokens.length ≤ rounds) :
    Follows tokens room (parameters rounds) Rule.parameters := by
  refine ⟨.parameters, fun c hc => .peek_bind hc ?_⟩
  split
  · exact (follows_pure _).run c hc
  · exact (followsAt_parametersFrom hc (hc.length_lt.trans_le hrounds)).congr
      (Rule.parametersFrom_zero_eq hc.close_kind)

end Indexed

end Lox

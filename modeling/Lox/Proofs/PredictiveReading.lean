import Lox.Proofs.ExpressionReading
import Lox.Proofs.Productions
import Lox.Proofs.Progress

/-!
# Reading by the next token

A rule decides a pattern if it reads the words of the pattern and no step of it was a guess. If it
reads something, then whatever goes on from there as a word of the pattern with a sequel goes on as
the sequel. If it fails, the tokens it has passed begin a word of the pattern, and with the token
at fault they begin no word of the pattern with a sequel. Sequels are the words of any language that
avoids the classes by which the pattern could be continued. Deciding is closed under the
ways in which rules are put together.
-/
namespace Lox

open Grammar

/-- The classes of tokens. -/
def Token.kinds (ts : List Token) : List Kind := ts.map Token.kind

@[simp] theorem Token.kinds_nil : Token.kinds [] = [] := rfl

@[simp] theorem Token.kinds_cons (t : Token) (ts : List Token) :
    Token.kinds (t :: ts) = t.kind :: Token.kinds ts := rfl

@[simp] theorem Token.kinds_append (ts us : List Token) :
    Token.kinds (ts ++ us) = Token.kinds ts ++ Token.kinds us := List.map_append

/-- All classes of tokens but the given ones. -/
def Kind.allBut (kept : List Kind) : List Kind := all.filter fun kind => kind ∉ kept

theorem Kind.mem_allBut {kind : Kind} {kept : List Kind} : kind ∈ allBut kept ↔ kind ∉ kept := by
  simp [allBut, mem_all]

/-- The error is about something that the grammar without bounds allows. -/
def SyntaxError.isBound : SyntaxError → Bool
  | tooDeep | assignmentTarget | tooManyParameters => true
  | expected _ | outsideLoop _ => false

/-- The position of the token that a fault is about, for a rule that fails at the cursor. It is the
next token, or the last one passed if that is a jump. -/
def SyntaxFault.position (fault : SyntaxFault) (c : Cursor) : Nat :=
  match fault.error with
  | .outsideLoop _ => c.position - 1
  | _ => c.position

namespace Cursor

variable {c d : Cursor} {t : Token} {ts rest : List Token} {inLoop : Bool} {word : List Kind}

/-- The end is ahead, and `inLoop` tells whether a loop is open. -/
structure Stands (c : Cursor) (inLoop : Bool) : Prop where
  close : c.close.kind = .eof
  loops : 0 < c.loops ↔ inLoop = true

/-- The word begins with the class of the next token. -/
def Faces (c : Cursor) (word : List Kind) : Prop := word.head? = some c.peek.kind

theorem Passes.stands (h : c.Passes ts d) (hc : c.Stands inLoop) : d.Stands inLoop where
  close := h.close_kind hc.close
  loops := by rw [h.loops, hc.loops]

theorem Passes.faces (h : c.Passes ts d) (hword : d.Faces word) :
    c.Faces (Token.kinds ts ++ word) := by
  cases ts with
  | nil =>
    obtain rfl := passes_nil.1 h
    exact hword
  | cons t rest => simp [Faces, h.peek_eq]

theorem Passes.length_lt (h : c.Passes ts d) (hne : ts ≠ []) :
    d.ahead.length < c.ahead.length := by
  have hpos := List.length_pos_iff.2 hne
  rw [h.ahead, List.length_append]
  omega

/-- Where a bound on what is ahead is used up, only the end is left. -/
theorem Stands.peek_kind (h : c.Stands inLoop) (hlength : c.ahead.length ≤ 0) :
    c.peek.kind = .eof :=
  peek_kind_of_nil h.close (List.length_eq_zero_iff.1 (Nat.le_zero.1 hlength))

theorem exists_eq_peek_cons (c : Cursor) : ∃ rest, c.ahead ++ [c.close] = c.peek :: rest := by
  obtain ⟨ahead, close, position, depth, loops⟩ := c
  cases ahead with
  | nil => exact ⟨[], rfl⟩
  | cons t rest => exact ⟨rest ++ [close], rfl⟩

theorem faces_of_ahead (h : c.ahead ++ [c.close] = ts ++ t :: rest) (word : List Kind) :
    c.Faces (Token.kinds ts ++ t.kind :: word) := by
  obtain ⟨more, hpeek⟩ := c.exists_eq_peek_cons
  rw [hpeek] at h
  cases ts with
  | nil =>
    obtain ⟨rfl, -⟩ := List.cons.inj h
    rfl
  | cons u us =>
    obtain ⟨rfl, -⟩ := List.cons.inj h
    rfl

end Cursor

namespace Rule

variable {α β : Type} {c d : Cursor} {L L' M K : Language Kind}

/-! ### Judging a step -/

/-- What a step from a cursor says about the language `L` where words of `K` follow. -/
inductive Judged {α : Type} (c : Cursor) (L K : Language Kind) : Step α → Prop
  /-- A word of `L` has been read, and only a word of `K` goes on from there. -/
  | read {a ts d} : c.Passes ts d → Token.kinds ts ∈ L →
      (∀ word, d.Faces word → Token.kinds ts ++ word ∈ L * K → word ∈ K) →
      Judged c L K ⟨.ok a, d, []⟩
  /-- The first report is about a bound. -/
  | bound {step fault} : step.reports.head? = some fault → fault.error.isBound = true →
      Judged c L K step
  /-- The tokens before a fault begin a word of `L`, and with the one at fault they begin none that
  a word of `K` follows. -/
  | stuck {fault d ts rest} : c.ahead ++ [c.close] = ts ++ fault.token :: rest →
      fault.position d = c.position + ts.length → (∃ word, Token.kinds ts ++ word ∈ L) →
      (∀ word, Token.kinds ts ++ fault.token.kind :: word ∉ L * K) →
      Judged c L K ⟨.error fault, d, [fault]⟩

/-- Steps in sequence are about languages in sequence. -/
theorem Judged.bind {rule : Rule α} {next : α → Rule β} (hr : Judged c L (M * K) (rule c))
    (hn : ∀ a ts d, rule c = ⟨.ok a, d, []⟩ → c.Passes ts d → Token.kinds ts ∈ L →
      Judged d M K (next a d)) (hM : ∃ word, word ∈ M) :
    Judged c (L * M) K ((rule >>= next) c) := by
  generalize hstep : rule c = step at hr
  cases hr with
  | @read a ts d hpass hmem hforced =>
    have hnext := hn a ts d hstep hpass hmem
    rw [bind_of_ok hstep]
    simp only [List.nil_append]
    generalize next a d = after at hnext
    cases hnext with
    | @read b us e hpass' hmem' hforced' =>
      refine .read (hpass.trans hpass') ?_ fun word hword hall => ?_
      · rw [Token.kinds_append]
        exact Language.append_mem_mul hmem hmem'
      · rw [Token.kinds_append, List.append_assoc, mul_assoc] at hall
        exact hforced' word hword (hforced _ (hpass'.faces hword) hall)
    | bound hfirst hbound => exact .bound hfirst hbound
    | @stuck fault e us rest hahead hplace hviable hdead =>
      have hall : c.ahead ++ [c.close] = ts ++ us ++ fault.token :: rest := by
        rw [hpass.ahead, List.append_assoc, ← hpass.close, hahead, List.append_assoc]
      refine .stuck hall ?_ ?_ fun word h => ?_
      · rw [hplace, hpass.position, List.length_append, Nat.add_assoc]
      · obtain ⟨word, hword⟩ := hviable
        refine ⟨word, ?_⟩
        rw [Token.kinds_append, List.append_assoc]
        exact Language.append_mem_mul hmem hword
      · rw [Token.kinds_append, List.append_assoc, mul_assoc] at h
        exact hdead word (hforced _ (d.faces_of_ahead hahead word) h)
  | bound hfirst hbound =>
    obtain ⟨outcome, d, reports⟩ := step
    cases outcome with
    | ok a =>
      rw [bind_of_ok hstep]
      refine .bound ?_ hbound
      simp_all
    | error fault =>
      rw [bind_of_error hstep]
      exact .bound hfirst hbound
  | stuck hahead hplace hviable hdead =>
    rw [bind_of_error hstep]
    refine .stuck hahead hplace ?_ fun word => ?_
    · obtain ⟨word, hword⟩ := hviable
      obtain ⟨more, hmore⟩ := hM
      refine ⟨word ++ more, ?_⟩
      rw [← List.append_assoc]
      exact Language.append_mem_mul hword hmore
    · rw [mul_assoc]
      exact hdead word

/-- A larger language is judged alike if the next token rules out what has been added. -/
theorem Judged.widen {step : Step α} (h : Judged c L K step) (hle : ∀ word ∈ L, word ∈ L')
    (hback : ∀ word, c.Faces word → word ∈ L' * K → word ∈ L * K) : Judged c L' K step := by
  cases h with
  | read hpass hmem hforced =>
    refine .read hpass (hle _ hmem) fun word hword hall => ?_
    exact hforced word hword (hback _ (hpass.faces hword) hall)
  | bound hfirst hbound => exact .bound hfirst hbound
  | stuck hahead hplace hviable hdead =>
    obtain ⟨more, hmore⟩ := hviable
    refine .stuck hahead hplace ⟨more, hle _ hmore⟩ fun word hall => ?_
    exact hdead word (hback _ (c.faces_of_ahead hahead word) hall)

/-- What is opened before a rule and closed after it does not change what is read. -/
theorem Judged.closeWith {c' : Cursor} {after : Cursor → Cursor} {step : Step α}
    (h : Judged c' L K step) (hahead : c'.ahead = c.ahead) (hclose : c'.close = c.close)
    (hposition : c'.position = c.position)
    (hafter : ∀ ts d, c'.Passes ts d → c.Passes ts (after d))
    (hpeek : ∀ d, (after d).peek = d.peek) : Judged c L K (step.closeWith after) := by
  cases h with
  | read hpass hmem hforced =>
    refine .read (hafter _ _ hpass) hmem fun word hword => hforced word ?_
    rw [Cursor.Faces, ← hpeek]
    exact hword
  | @bound step fault hfirst hbound =>
    refine .bound ?_ hbound
    rw [← hfirst, Step.closeWith]
    split <;> rfl
  | stuck hrest hplace hviable hdead =>
    rw [hahead, hclose] at hrest
    rw [hposition] at hplace
    exact .stuck hrest hplace hviable hdead

/-! ### Deciding a pattern -/

variable {rule : Rule α} {next : α → Rule β} {p q : Pattern} {ps : List Pattern}
  {barred barred' : List Kind} {looping : Bool}

/-- No word of the language begins with a class that is barred. -/
def Bars (barred : List Kind) (K : Language Kind) : Prop :=
  ∀ kind ∈ barred, ∀ word, kind :: word ∉ K

/-- From the cursor the rule decides the pattern, where nothing of a barred class may follow. -/
def DecidesAt (rule : Rule α) (c : Cursor) (p : Pattern) (barred : List Kind) : Prop :=
  ∀ K, Bars barred K → Judged c p.language K (rule c)

/-- The rule decides the pattern inside of loops, or outside of them. -/
def Decides (rule : Rule α) (looping : Bool) (p : Pattern) (barred : List Kind) : Prop :=
  ∀ c : Cursor, c.Stands looping → DecidesAt rule c p barred

/-- Behind something after which classes are barred, a pattern begins with none of them, and what
follows the pattern does not either if the pattern may be empty. -/
def Fits (barred : List Kind) (q : Pattern) (barred' : List Kind) : Prop :=
  q.isFertile = true ∧ ∀ kind ∈ barred, kind ∉ q.firsts ∧ (q.nullable = false ∨ kind ∈ barred')

instance : Decidable (Fits barred q barred') := inferInstanceAs (Decidable (_ ∧ _))

theorem fits_nil (h : q.isFertile = true) : Fits [] q barred' := ⟨h, by simp⟩

theorem Fits.bars (h : Fits barred q barred') (hK : Bars barred' K) :
    Bars barred (q.language * K) := by
  intro kind hkind word hmem
  obtain ⟨hfirst, hnull⟩ := h.2 kind hkind
  obtain ⟨u, hu, v, hv, heq⟩ := Language.mem_mul.1 hmem
  cases u with
  | nil =>
    obtain rfl : v = kind :: word := heq
    have hmem' : kind ∈ barred' := hnull.resolve_left (by simp [Pattern.Yields.nullable hu])
    exact hK kind hmem' word hv
  | cons k rest =>
    obtain ⟨rfl, -⟩ := List.cons.inj heq
    exact hfirst (Pattern.Yields.first_mem hu)

theorem DecidesAt.of_eq {rule' : Rule α} (h : DecidesAt rule' c p barred)
    (heq : rule c = rule' c) : DecidesAt rule c p barred := by
  intro K hK
  rw [heq]
  exact h K hK

theorem DecidesAt.congr (h : DecidesAt rule c p barred) (hpq : p.language = q.language) :
    DecidesAt rule c q barred := by
  intro K hK
  rw [← hpq]
  exact h K hK

theorem Decides.congr (h : Decides rule looping p barred) (hpq : p.language = q.language) :
    Decides rule looping q barred :=
  fun c hc => (h c hc).congr hpq

/-- More may be barred. -/
theorem DecidesAt.mono (h : DecidesAt rule c p barred) (hsub : ∀ kind ∈ barred, kind ∈ barred') :
    DecidesAt rule c p barred' :=
  fun K hK => h K fun kind hkind => hK kind (hsub kind hkind)

theorem DecidesAt.of_nil (h : DecidesAt rule c p []) : DecidesAt rule c p barred := h.mono (by simp)

theorem Decides.of_nil (h : Decides rule looping p []) : Decides rule looping p barred :=
  fun c hc => (h c hc).of_nil

theorem DecidesAt.phrase {category : Category} (h : DecidesAt rule c (production category) barred) :
    DecidesAt rule c (.phrase category) barred :=
  h.congr (Pattern.language_phrase category).symm

theorem Decides.phrase {category : Category}
    (h : Decides rule looping (production category) barred) :
    Decides rule looping (.phrase category) barred :=
  h.congr (Pattern.language_phrase category).symm

theorem DecidesAt.bind (hr : DecidesAt rule c p barred)
    (hn : ∀ a ts d, rule c = ⟨.ok a, d, []⟩ → c.Passes ts d → p.Yields (Token.kinds ts) →
      DecidesAt (next a) d q barred')
    (hfits : Fits barred q barred') : DecidesAt (rule >>= next) c (.seq p q) barred' := by
  intro K hK
  rw [Pattern.language_seq]
  exact (hr _ (hfits.bars hK)).bind (fun a ts d hrule hpass hmem => hn a ts d hrule hpass hmem K hK)
    (Pattern.exists_yields hfits.1)

theorem Decides.bind (hr : Decides rule looping p barred)
    (hn : ∀ a, Decides (next a) looping q barred') (hfits : Fits barred q barred') :
    Decides (rule >>= next) looping (.seq p q) barred' :=
  fun c hc => (hr c hc).bind (fun a _ d _ hpass _ => hn a d (hpass.stands hc)) hfits

/-- Nothing is read where the pattern may be empty and does not begin with the next token. -/
theorem decidesAt_pure (a : α) (hnil : p.Yields []) (hfirst : c.peek.kind ∉ p.firsts) :
    DecidesAt (pure a) c p barred := by
  intro K hK
  refine .read (Cursor.passes_nil.2 rfl) hnil fun word hword hall => ?_
  obtain ⟨u, hu, v, hv, rfl⟩ := Language.mem_mul.1 hall
  cases u with
  | nil => exact hv
  | cons k rest =>
    obtain rfl : k = c.peek.kind := Option.some.inj hword
    exact absurd (Pattern.Yields.first_mem hu) hfirst

theorem decides_pure (a : α) : Decides (pure a) looping .nothing barred :=
  fun _ _ => decidesAt_pure a .nothing (by simp [Pattern.firsts])

/-- A rule is followed by one that reads nothing. -/
theorem DecidesAt.before_nothing (hr : DecidesAt rule c p barred)
    (hn : ∀ a d, DecidesAt (next a) d .nothing barred) :
    DecidesAt (rule >>= next) c p barred := by
  have hfits : Fits barred .nothing barred :=
    ⟨rfl, fun kind hkind => ⟨by simp [Pattern.firsts], .inr hkind⟩⟩
  refine (hr.bind (fun a _ d _ _ _ => hn a d) hfits).congr ?_
  rw [Pattern.language_seq, Pattern.language_nothing, mul_one]

theorem DecidesAt.map (hr : DecidesAt rule c p barred) (f : α → β) :
    DecidesAt (rule >>= fun a => pure (f a)) c p barred :=
  hr.before_nothing fun a _ => decidesAt_pure (f a) .nothing (by simp [Pattern.firsts])

theorem Decides.map (hr : Decides rule looping p barred) (f : α → β) :
    Decides (rule >>= fun a => pure (f a)) looping p barred :=
  fun c hc => (hr c hc).map f

/-- The next token tells a part of a pattern from the rest. -/
theorem DecidesAt.widen (h : DecidesAt rule c p barred)
    (hle : ∀ word, p.Yields word → q.Yields word)
    (hback : ∀ word, q.Yields (c.peek.kind :: word) → p.Yields (c.peek.kind :: word))
    (hnil : q.Yields [] → p.Yields [] ∨ c.peek.kind ∈ barred) : DecidesAt rule c q barred := by
  intro K hK
  refine (h K hK).widen hle fun word hword hall => ?_
  obtain ⟨u, hu, v, hv, rfl⟩ := Language.mem_mul.1 hall
  cases u with
  | nil =>
    rcases hnil hu with hp | hbarred
    · exact Language.append_mem_mul hp hv
    · cases v with
      | nil => cases hword
      | cons k rest =>
        obtain rfl : k = c.peek.kind := Option.some.inj hword
        exact absurd hv (hK _ hbarred rest)
  | cons k rest =>
    obtain rfl : k = c.peek.kind := Option.some.inj hword
    exact Language.append_mem_mul (hback rest hu) hv

/-- Of the patterns only the one may begin with the class, and no other is empty. -/
def Singles (kind : Kind) (p : Pattern) (ps : List Pattern) : Prop :=
  p ∈ ps ∧ ∀ q ∈ ps, q = p ∨ kind ∉ q.firsts ∧ q.nullable = false

instance {kind : Kind} : Decidable (Singles kind p ps) := inferInstanceAs (Decidable (_ ∧ _))

theorem DecidesAt.oneOf (h : DecidesAt rule c p barred) (hsingle : Singles c.peek.kind p ps) :
    DecidesAt rule c (.oneOf ps) barred := by
  obtain ⟨hp, hother⟩ := hsingle
  refine h.widen (fun word hword => Pattern.yields_oneOf.2 ⟨p, hp, hword⟩) ?_ ?_
  · intro word hword
    obtain ⟨q, hq, hword⟩ := Pattern.yields_oneOf.1 hword
    rcases hother q hq with rfl | ⟨hfirst, -⟩
    · exact hword
    · exact absurd hword.first_mem hfirst
  · intro hnil
    obtain ⟨q, hq, hnil⟩ := Pattern.yields_oneOf.1 hnil
    rcases hother q hq with rfl | ⟨-, hnull⟩
    · exact .inl hnil
    · simp [hnil.nullable] at hnull

/-- What is read if the next token is none of those with which the other patterns begin. -/
theorem DecidesAt.oneOf_default (kinds : List Kind) (h : DecidesAt rule c p barred) (hp : p ∈ ps)
    (hpeek : c.peek.kind ∉ kinds)
    (hother : ∀ q ∈ ps, q = p ∨ (∀ kind ∈ q.firsts, kind ∈ kinds) ∧ q.nullable = false) :
    DecidesAt rule c (.oneOf ps) barred :=
  h.oneOf ⟨hp, fun q hq => (hother q hq).imp_right fun ⟨hsub, hnull⟩ =>
    ⟨fun hfirst => hpeek (hsub _ hfirst), hnull⟩⟩

theorem DecidesAt.left (h : DecidesAt rule c p barred) (hfirst : c.peek.kind ∉ q.firsts)
    (hnull : q.nullable = false ∨ c.peek.kind ∈ barred) :
    DecidesAt rule c (.either p q) barred := by
  refine h.widen (fun word => .left) (fun word hword => ?_) fun hnil => ?_
  · cases hword with
    | left hword => exact hword
    | right hword => exact absurd hword.first_mem hfirst
  · cases hnil with
    | left hnil => exact .inl hnil
    | right hnil => exact .inr (hnull.resolve_left (by simp [hnil.nullable]))

theorem DecidesAt.right (h : DecidesAt rule c q barred) (hfirst : c.peek.kind ∉ p.firsts)
    (hnull : p.nullable = false ∨ c.peek.kind ∈ barred) :
    DecidesAt rule c (.either p q) barred := by
  refine (h.left hfirst hnull).congr ?_
  rw [Pattern.language_either, Pattern.language_either, add_comm]

/-! ### Basic rules -/

/-- A rule that fails at a token with which the pattern does not begin. -/
theorem DecidesAt.stuck {fault : SyntaxFault} (hrule : rule c = ⟨.error fault, d, [fault]⟩)
    (htoken : fault.token = c.peek) (hposition : fault.position d = c.position)
    (hfertile : p.isFertile = true) (hfirst : c.peek.kind ∉ p.firsts)
    (hnull : p.nullable = false) : DecidesAt rule c p barred := by
  intro K _
  obtain ⟨rest, hrest⟩ := c.exists_eq_peek_cons
  have hahead : c.ahead ++ [c.close] = [] ++ fault.token :: rest := by rw [hrest, htoken]; rfl
  rw [hrule]
  refine .stuck hahead hposition (Pattern.exists_yields hfertile) fun word hall => ?_
  obtain ⟨u, hu, v, -, heq⟩ := Language.mem_mul.1 hall
  cases u with
  | nil => simp [Pattern.Yields.nullable hu] at hnull
  | cons k more =>
    obtain ⟨rfl, -⟩ := List.cons.inj heq
    rw [htoken] at hu
    exact hfirst (Pattern.Yields.first_mem hu)

/-- A rule that first reports something about a bound decides every pattern. -/
theorem DecidesAt.bound (fault : SyntaxFault) (hfirst : (rule c).reports.head? = some fault)
    (hbound : fault.error.isBound = true) : DecidesAt rule c p barred :=
  fun _ _ => .bound hfirst hbound

theorem decides_tooDeep : Decides (tooDeep : Rule α) looping p barred :=
  fun c _ => .bound ⟨c.peek, .tooDeep⟩ rfl rfl

/-- A token is passed whose class the pattern asks for. -/
theorem decidesAt_advance {kinds : List Kind} (hc : c.Stands looping) (hkind : c.peek.kind ∈ kinds)
    (heof : .eof ∉ kinds) : DecidesAt advance c (.token kinds) barred := by
  intro K _
  have hpass := Cursor.passes_advance hc.close (ne_of_mem_of_not_mem hkind heof)
  refine .read hpass (.token hkind) fun word _ hall => ?_
  obtain ⟨u, hu, v, hv, heq⟩ := Language.mem_mul.1 hall
  obtain ⟨kind, -, rfl⟩ := Pattern.mem_language_token.1 hu
  obtain ⟨-, rfl⟩ := List.cons.inj heq
  exact hv

theorem DecidesAt.peek_bind {next : Token → Rule α} (h : DecidesAt (next c.peek) c p barred) :
    DecidesAt (peek >>= next) c p barred :=
  h.of_eq rfl

/-- A rule that starts with a word of its own. -/
theorem DecidesAt.word {rest : Unit → Rule α} {kind : Kind} (hc : c.Stands looping)
    (hkind : c.peek.kind = kind) (heof : kind ≠ .eof) (hq : q.isFertile = true)
    (h : Decides (rest ()) looping q barred) :
    DecidesAt (advance >>= rest) c (.seq (.token [kind]) q) barred := by
  have hword : DecidesAt advance c (.token [kind]) [] :=
    decidesAt_advance hc (by simp [hkind]) (by simpa using heof.symm)
  exact hword.bind (fun _ _ d _ hpass _ => h d (hpass.stands hc)) (fits_nil hq)

/-- The rule for a category that starts with a word of its own, which tells it from others. -/
theorem DecidesAt.keyword {rest : Unit → Rule α} {kind : Kind} (category : Category)
    (hc : c.Stands looping) (hkind : c.peek.kind = kind) (heof : kind ≠ .eof)
    (hproduction : production category = .seq (.token [kind]) q) (hq : q.isFertile = true)
    (h : Decides (rest ()) looping q barred) (hsingle : Singles kind (.phrase category) ps) :
    DecidesAt (advance >>= rest) c (.oneOf ps) barred := by
  refine DecidesAt.oneOf (p := .phrase category) ?_ (by rwa [hkind])
  apply DecidesAt.phrase
  rw [hproduction]
  exact .word hc hkind heof hq h

theorem DecidesAt.word_pure {kind : Kind} (hc : c.Stands looping) (hkind : c.peek.kind = kind)
    (heof : kind ≠ .eof) (a : α) :
    DecidesAt (advance >>= fun _ => pure a) c (.token [kind]) barred :=
  (decidesAt_advance hc (by simp [hkind]) (by simpa using heof.symm)).map fun _ => a

theorem expect_of_ne {kind : Kind} (what : String) (h : c.peek.kind ≠ kind) :
    expect kind what c =
      ⟨.error ⟨c.peek, .expected what⟩, c, [⟨c.peek, .expected what⟩]⟩ := by
  simp [expect, bind, peek, fail, h]

theorem decides_expect {kind : Kind} {what : String} (heof : kind ≠ .eof) :
    Decides (expect kind what) looping (.token [kind]) [] := by
  intro c hc
  refine .peek_bind ?_
  split
  · next hkind =>
    exact (decidesAt_advance hc (by simp [hkind]) (by simpa using heof.symm)).map fun _ => c.peek
  · next hkind => exact .stuck rfl rfl rfl rfl (by simpa [Pattern.firsts] using hkind) rfl

theorem Decides.expect_bind {next : Token → Rule α} {kind : Kind} {what : String}
    (heof : kind ≠ .eof) (hq : q.isFertile = true)
    (hn : ∀ t, Decides (next t) looping q barred) :
    Decides (expect kind what >>= next) looping (.seq (.token [kind]) q) barred :=
  (decides_expect heof).bind hn (fits_nil hq)

/-- A part is read if the next token is wanted, which must not begin what is read otherwise. -/
theorem DecidesAt.accept {wanted : Kind → Bool} {kinds : List Kind} {next : Option Token → Rule α}
    (hwanted : ∀ kind, wanted kind = kinds.contains kind) (heof : .eof ∉ kinds)
    (hc : c.Stands looping) (hp : p.isFertile = true)
    (hsome : c.Passes [c.peek] c.advance → DecidesAt (next (some c.peek)) c.advance p barred)
    (hnone : DecidesAt (next none) c q barred) (hfits : Fits kinds q barred) :
    DecidesAt (accept wanted >>= next) c (.either (.seq (.token kinds) p) q) barred := by
  by_cases hkind : c.peek.kind ∈ kinds
  · have hpass := Cursor.passes_advance hc.close (ne_of_mem_of_not_mem hkind heof)
    have hread : (Rule.accept wanted).Reads c (some c.peek) c.advance :=
      reads_accept_some (by simpa [hwanted] using hkind) hpass
    have hword : DecidesAt advance c (.token kinds) [] := decidesAt_advance hc hkind heof
    have hboth : DecidesAt (advance >>= fun _ => next (some c.peek)) c
        (.seq (.token kinds) p) barred := by
      refine hword.bind (fun _ ts d hrule _ _ => ?_) (fits_nil hp)
      cases hrule
      exact hsome hpass
    obtain ⟨hfirst, hnull⟩ := hfits.2 _ hkind
    exact (hboth.left hfirst hnull).of_eq (bind_of_ok hread)
  · have hread : (Rule.accept wanted).Reads c none c :=
      reads_accept_none (by simpa [hwanted] using hkind)
    have hfirst : c.peek.kind ∉ (Pattern.seq (.token kinds) p).firsts := by
      simpa [Pattern.firsts, Pattern.nullable] using hkind
    exact (hnone.right hfirst (.inl rfl)).of_eq (bind_of_ok hread)

theorem Decides.accept {wanted : Kind → Bool} {kinds : List Kind} {next : Option Token → Rule α}
    (hwanted : ∀ kind, wanted kind = kinds.contains kind) (heof : .eof ∉ kinds)
    (hp : p.isFertile = true) (hsome : ∀ t, Decides (next (some t)) looping p barred)
    (hnone : Decides (next none) looping q barred) (hfits : Fits kinds q barred) :
    Decides (accept wanted >>= next) looping (.either (.seq (.token kinds) p) q) barred :=
  fun c hc => .accept hwanted heof hc hp (fun hpass => hsome _ _ (hpass.stands hc)) (hnone c hc)
    hfits

/-! ### Nesting and loops -/

theorem Decides.nested (h : Decides rule looping p barred) :
    Decides (nested rule) looping p barred := by
  intro c hc K hK
  rw [nested_eq]
  refine (h c.deeper ⟨hc.close, hc.loops⟩ K hK).closeWith rfl rfl rfl ?_ fun _ => rfl
  exact fun ts d hpass => hpass.shallower

theorem Decides.inLoop (h : Decides rule true p barred) (looping : Bool) :
    Decides (Rule.inLoop rule) looping p barred := by
  intro c hc K hK
  rw [inLoop_eq]
  have hin : (c.withLoops (c.loops + 1)).Stands true := ⟨hc.close, by simp [Cursor.withLoops]⟩
  refine (h _ hin K hK).closeWith rfl rfl rfl ?_ fun _ => rfl
  intro ts d hpass
  have hloops : d.loops - 1 = c.loops := by rw [hpass.loops]; rfl
  rw [hloops]
  exact hpass.restoreLoops

theorem Decides.outsideLoops (h : Decides rule false p barred) (looping : Bool) :
    Decides (Rule.outsideLoops rule) looping p barred := by
  intro c hc K hK
  rw [outsideLoops_eq]
  have hout : (c.withLoops 0).Stands false := ⟨hc.close, by simp [Cursor.withLoops]⟩
  refine (h _ hout K hK).closeWith rfl rfl rfl ?_ fun _ => rfl
  exact fun ts d hpass => hpass.restoreLoops

/-! ### Repetition -/

/-- Items are read until a stop, if they do not begin as the stop does and do not have to be told
from what follows them. -/
theorem decidesAt_manyUntil {stop : Kind} (hitem : Decides rule looping p barred)
    (hnull : p.nullable = false) (hstop : ∀ kind ∈ p.firsts, kind ≠ stop ∧ kind ≠ .eof)
    (hfits : Fits barred (.many p) (Kind.allBut [stop, .eof])) (bound : List Token) :
    ∀ c : Cursor, c.Stands looping → c.ahead.length ≤ bound.length →
      DecidesAt (manyUntil stop rule bound) c (.many p) (Kind.allBut [stop, .eof]) := by
  induction bound with
  | nil =>
    intro c hc hlength
    exact decidesAt_pure [] .none fun hfirst => (hstop _ hfirst).2 (hc.peek_kind hlength)
  | cons t more ih =>
    intro c hc hlength
    have hround : manyUntil stop rule (t :: more) c =
        (if c.peek.kind = stop ∨ c.peek.kind = .eof then pure []
          else rule >>= fun a => manyUntil stop rule more >>= fun as => pure (a :: as)) c := rfl
    refine DecidesAt.of_eq ?_ hround
    split
    · next hend =>
      refine decidesAt_pure [] .none fun hfirst => ?_
      obtain ⟨hne, hneof⟩ := hstop _ hfirst
      exact hend.elim hne hneof
    · next hgo =>
      have hseq : DecidesAt
          (rule >>= fun a => manyUntil stop rule more >>= fun as => pure (a :: as)) c
          (.seq p (.many p)) (Kind.allBut [stop, .eof]) := by
        refine (hitem c hc).bind (fun a ts d _ hpass hyields => ?_) hfits
        refine (ih d (hpass.stands hc) ?_).map _
        have hne : ts ≠ [] := by
          rintro rfl
          simp [Pattern.Yields.nullable hyields] at hnull
        exact Nat.le_of_lt_succ ((hpass.length_lt hne).trans_le hlength)
      have hbarred : c.peek.kind ∈ Kind.allBut [stop, .eof] :=
        Kind.mem_allBut.2 (by simpa using hgo)
      refine (hseq.left (q := .nothing) (by simp [Pattern.firsts]) (.inr hbarred)).congr ?_
      rw [Pattern.language_either, Pattern.language_seq, Pattern.language_nothing]
      exact Pattern.language_many.symm

theorem Decides.many {stop : Kind} (hitem : Decides rule looping p barred)
    (hnull : p.nullable = false) (hstop : ∀ kind ∈ p.firsts, kind ≠ stop ∧ kind ≠ .eof)
    (hfits : Fits barred (.many p) (Kind.allBut [stop, .eof])) :
    Decides (many stop rule) looping (.many p) (Kind.allBut [stop, .eof]) :=
  fun c hc => decidesAt_manyUntil hitem hnull hstop hfits c.ahead c hc le_rfl

end Rule

end Lox

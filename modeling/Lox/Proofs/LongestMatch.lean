import Lox.TokenStream
import Lox.Proofs.Lexeme
import Mathlib.Data.List.TakeWhile

/-!
# Longest match

A source is divided into tokens, blank characters, comments, characters that start
nothing and at most one string that is left open. Each token is the longest lexeme at
its place, and there is only one such division, so it is the one that is read. The
lines of tokens and faults are counted by the line feeds in the text before them.
-/
namespace Lox

namespace Segment

open Lexeme (Digits Numeral Quoted)

/-- The segment is what a text starts with if `rest` follows it there. -/
inductive Leads : Segment → (rest : List Char) → Prop
  | token {kind text literal rest} :
      Lexeme kind text literal → ¬['/', '/'] <+: text ++ rest →
      (∀ kind' longer literal', Lexeme kind' longer literal' → longer <+: text ++ rest →
        longer.length ≤ text.length) →
      Leads (.token kind text literal) rest
  | blank {c rest} : c ∈ [' ', '\r', '\t', '\n'] → Leads (.blank c) rest
  | comment {body rest} :
      '\n' ∉ body → rest = [] ∨ rest.head? = some '\n' →
      Leads (.comment ('/' :: '/' :: body)) rest
  | stray {c rest} :
      c ∉ [' ', '\r', '\t', '\n'] → c ≠ '"' → ¬['/', '/'] <+: c :: rest →
      (∀ kind text literal, Lexeme kind text literal → ¬text <+: c :: rest) →
      Leads (.stray c) rest
  | unclosed {body} :
      (∀ kind text literal, Lexeme kind text literal → ¬text <+: '"' :: body) →
      Leads (.unclosed ('"' :: body)) []

/-- The segments divide the text, each of them being what the text starts with at its place. -/
inductive Division : List Segment → List Char → Prop
  | nil : Division [] []
  | cons {segment segments rest} :
      segment.Leads rest → Division segments rest →
      Division (segment :: segments) (segment.text ++ rest)

theorem not_slashes {c : Char} {rest : List Char} (h : c ≠ '/') :
    ¬['/', '/'] <+: c :: rest := by
  intro hslashes
  exact h (List.cons_prefix_cons.1 hslashes).1.symm

/-- A lexeme leads a text if no lexeme with the same first character is longer. -/
theorem Leads.of_longest {kind : Kind} {text rest cs : List Char} {literal : Option String}
    {c : Char} (h : Lexeme kind text literal) (htext : text ++ rest = c :: cs)
    (hslashes : ¬['/', '/'] <+: c :: cs)
    (hlongest : ∀ kind' longer literal', Lexeme kind' (c :: longer) literal' → longer <+: cs →
      longer.length + 1 ≤ text.length) : Leads (.token kind text literal) rest := by
  refine .token h (htext ▸ hslashes) ?_
  intro kind' longer literal' hlexeme hinit
  rw [htext] at hinit
  obtain ⟨d, more, rfl, -⟩ := hlexeme.head
  obtain ⟨rfl, hmore⟩ := List.cons_prefix_cons.1 hinit
  exact hlongest kind' more literal' hlexeme hmore

/-! ### Marks -/

theorem marks_of_mark? {c : Char} {kind : Kind} (h : mark? c = some kind) :
    (isLetter c = false ∧ c.isDigit = false ∧ c ≠ '"' ∧ c ≠ '/') ∧ ([c], kind) ∈ Kind.marks ∧
      ∀ entry ∈ Kind.marks, entry.1.head? = some c → entry.1 = [c] := by
  unfold mark? at h
  split at h <;> cases h <;> decide

theorem marks_of_pair? {c second : Char} {both : Kind} {alone : Option Kind}
    (h : pair? c = some (second, both, alone)) :
    (isLetter c = false ∧ c.isDigit = false ∧ c ≠ '"' ∧ c ≠ '/') ∧
      c ∉ [' ', '\r', '\t', '\n'] ∧ ([c, second], both) ∈ Kind.marks ∧
      (∀ kind ∈ alone, ([c], kind) ∈ Kind.marks) ∧
      ∀ entry ∈ Kind.marks, entry.1.head? = some c →
        entry.1 = [c, second] ∨ entry.1 = [c] ∧ alone ≠ none := by
  unfold pair? at h
  split at h <;> cases h <;> decide

theorem mark?_ne_none_or_pair?_ne_none {text : List Char} {kind : Kind} {c : Char}
    (h : (text, kind) ∈ Kind.marks) (hc : text.head? = some c) :
    mark? c ≠ none ∨ pair? c ≠ none ∨ c = '/' := by
  have hall : ∀ entry ∈ Kind.marks, entry.1.head?.all
      (fun c => (mark? c).isSome || (pair? c).isSome || c == '/') = true := by decide
  have hfirst := hall _ h
  rw [hc] at hfirst
  simpa [Option.isSome_iff_ne_none, or_assoc] using hfirst

theorem leads_mark {c : Char} {kind : Kind} (h : mark? c = some kind) (rest : List Char) :
    Leads (.token kind [c] none) rest := by
  obtain ⟨⟨hletter, hdigit, hquote, hslash⟩, hmark, honly⟩ := marks_of_mark? h
  refine .of_longest (.mark hmark) rfl (not_slashes hslash) ?_
  intro kind' longer literal' hlexeme hinit
  have hmem := (hlexeme.of_other hletter hdigit hquote).1
  have heq : c :: longer = [c] := honly _ hmem rfl
  exact (congrArg List.length heq).le

theorem leads_pair {c second : Char} {both : Kind} {alone : Option Kind}
    (h : pair? c = some (second, both, alone)) (rest : List Char) :
    Leads (pair c second both alone rest).1 (pair c second both alone rest).2 := by
  obtain ⟨⟨hletter, hdigit, hquote, hslash⟩, hblank, hboth, halone, honly⟩ := marks_of_pair? h
  have hmarks : ∀ kind' longer literal', Lexeme kind' (c :: longer) literal' →
      longer = [second] ∨ longer = [] ∧ alone ≠ none := by
    intro kind' longer literal' hlexeme
    simpa using honly _ (hlexeme.of_other hletter hdigit hquote).1 rfl
  unfold pair
  split
  · next hhead =>
    obtain ⟨rest', rfl⟩ := List.head?_eq_some_iff.1 hhead
    refine .of_longest (.mark hboth) rfl (not_slashes hslash) ?_
    intro kind' longer literal' hlexeme hinit
    rcases hmarks kind' longer literal' hlexeme with rfl | ⟨rfl, -⟩ <;> simp
  · next hhead =>
    -- Without the second character only the first one alone can be a lexeme.
    have hsingle : ∀ kind' longer literal', Lexeme kind' (c :: longer) literal' →
        longer <+: rest → longer = [] ∧ alone ≠ none := by
      intro kind' longer literal' hlexeme hinit
      rcases hmarks kind' longer literal' hlexeme with rfl | hsingle
      · obtain ⟨rest', rfl⟩ := hinit
        exact absurd rfl hhead
      · exact hsingle
    cases alone with
    | some kind =>
      refine .of_longest (.mark (halone kind rfl)) rfl (not_slashes hslash) ?_
      intro kind' longer literal' hlexeme hinit
      simp [(hsingle kind' longer literal' hlexeme hinit).1]
    | none =>
      refine .stray hblank hquote (not_slashes hslash) ?_
      intro kind' text literal' hlexeme hinit
      obtain ⟨d, more, rfl, -⟩ := hlexeme.head
      obtain ⟨rfl, hmore⟩ := List.cons_prefix_cons.1 hinit
      exact (hsingle kind' more literal' hlexeme hmore).2 rfl

/-! ### Comments -/

theorem leads_slash (rest : List Char) : Leads (slash rest).1 (slash rest).2 := by
  unfold slash
  split
  · next hhead =>
    obtain ⟨rest', rfl⟩ := List.head?_eq_some_iff.1 hhead
    have hbody : ('/' :: rest').takeWhile (· != '\n') = '/' :: rest'.takeWhile (· != '\n') := rfl
    have hrest : ('/' :: rest').dropWhile (· != '\n') = rest'.dropWhile (· != '\n') := rfl
    rw [hbody, hrest]
    refine .comment ?_ ?_
    · intro hmem
      have hnot := List.mem_takeWhile_imp hmem
      simp at hnot
    · cases hdrop : rest'.dropWhile (· != '\n') with
      | nil => exact .inl rfl
      | cons d more =>
        have hstop := List.head_dropWhile_not (· != '\n') (hdrop ▸ List.cons_ne_nil d more)
        simp only [hdrop, List.head_cons, bne_eq_false_iff_eq] at hstop
        exact .inr (congrArg some hstop)
  · next hhead =>
    refine .of_longest (.mark (by decide)) rfl ?_ ?_
    · intro hslashes
      obtain ⟨rest', rfl⟩ := (List.cons_prefix_cons.1 hslashes).2
      exact hhead rfl
    · intro kind' longer literal' hlexeme hinit
      have hmem := (hlexeme.of_other (by decide) (by decide) (by decide)).1
      have honly : ∀ entry ∈ Kind.marks, entry.1.head? = some '/' → entry.1 = ['/'] := by decide
      have heq : '/' :: longer = ['/'] := honly _ hmem rfl
      exact (congrArg List.length heq).le

/-! ### Strings -/

theorem unescape_of_known {c d : Char} (h : (c, d) ∈ Lexeme.escapes) : unescape c = [d] := by
  have hall : ∀ entry ∈ Lexeme.escapes, unescape entry.1 = [entry.2] := by decide
  exact hall _ h

theorem unescape_of_unknown {c : Char} (h : c ∉ Lexeme.escapes.map Prod.fst) :
    unescape c = ['\\', c] := by
  simp only [Lexeme.escapes, List.map_cons, List.map_nil, List.mem_cons, List.not_mem_nil,
    or_false, not_or] at h
  obtain ⟨hn, ht, hquote, hbackslash⟩ := h
  simp [unescape]

/-- A string is read up to its closing quote. -/
theorem closeString_of_quoted {text contents : List Char} (h : Quoted text contents)
    (rest : List Char) :
    closeString (text ++ '"' :: rest) = some (text ++ ['"'], contents, rest) := by
  induction h with
  | nil => rfl
  | plain hquote hbackslash _ ih =>
    rw [List.cons_append, closeString]
    · simp [ih]
    · exact hquote
    · intro _ _ he
      exact absurd he hbackslash
  | known hmem _ ih => simp [closeString, ih, unescape_of_known hmem]
  | unknown hnot _ ih => simp [closeString, ih, unescape_of_unknown hnot]

theorem quoted_of_closeString {cs text contents rest : List Char}
    (h : closeString cs = some (text, contents, rest)) :
    ∃ inner, text = inner ++ ['"'] ∧ Quoted inner contents := by
  fun_induction closeString cs generalizing text contents rest with
  | case1 => cases h
  | case2 behind =>
    cases h
    exact ⟨[], rfl, .nil⟩
  | case3 c behind ih =>
    obtain ⟨⟨text', contents', rest'⟩, hr, he⟩ := Option.map_eq_some_iff.1 h
    cases he
    obtain ⟨inner, rfl, hinner⟩ := ih hr
    refine ⟨'\\' :: c :: inner, rfl, ?_⟩
    by_cases hknown : c ∈ Lexeme.escapes.map Prod.fst
    · obtain ⟨⟨_, d⟩, hmem, rfl⟩ := List.mem_map.1 hknown
      rw [unescape_of_known hmem]
      exact .known hmem hinner
    · rw [unescape_of_unknown hknown]
      exact .unknown hknown hinner
  | case4 c behind hquote hescape ih =>
    obtain ⟨⟨text', contents', rest'⟩, hr, he⟩ := Option.map_eq_some_iff.1 h
    cases he
    obtain ⟨inner, rfl, hinner⟩ := ih hr
    have hbackslash : c ≠ '\\' := by
      rintro rfl
      cases behind with
      | nil => cases hr
      | cons d more => exact hescape d more rfl rfl
    exact ⟨c :: inner, rfl, .plain hquote hbackslash hinner⟩

theorem leads_string (rest : List Char) : Leads (string rest).1 (string rest).2 := by
  unfold string
  cases h : closeString rest with
  | some read =>
    obtain ⟨text, contents, after⟩ := read
    obtain ⟨inner, rfl, hinner⟩ := quoted_of_closeString h
    have htext : '"' :: inner ++ ['"'] ++ after = '"' :: rest := by
      simpa using closeString_append h
    refine .of_longest (.string hinner) htext (not_slashes (by decide)) ?_
    intro kind' longer literal' hlexeme hinit
    obtain ⟨text', contents', hquoted, rfl, -⟩ := hlexeme.of_quote
    obtain ⟨after', rfl⟩ := hinit
    have hread := closeString_of_quoted hquoted after'
    rw [List.append_assoc] at h
    have heq := Option.some.inj (hread.symm.trans h)
    have hlength := congrArg (List.length ∘ Prod.fst) heq
    simp only [Function.comp_apply] at hlength
    simp only [List.length_append, List.length_cons] at hlength ⊢
    omega
  | none =>
    refine .unclosed ?_
    intro kind' longer literal' hlexeme hinit
    obtain ⟨d, more, rfl, -⟩ := hlexeme.head
    obtain ⟨rfl, after', hafter⟩ := List.cons_prefix_cons.1 hinit
    obtain ⟨text', contents', hquoted, rfl, -⟩ := hlexeme.of_quote
    have hrest : rest = text' ++ '"' :: after' := by simpa using hafter.symm
    rw [hrest, closeString_of_quoted hquoted] at h
    cases h

/-! ### Numbers and words -/

theorem length_le_takeWhile {p : Char → Bool} {us cs : List Char} (h : us <+: cs)
    (hall : ∀ c ∈ us, p c = true) : us.length ≤ (cs.takeWhile p).length := by
  obtain ⟨rest, rfl⟩ := h
  rw [List.takeWhile_append_of_pos hall, List.length_append]
  omega

theorem digits_takeWhile {c : Char} (hc : c.isDigit = true) (rest : List Char) :
    Digits (c :: rest.takeWhile Char.isDigit) := by
  refine ⟨List.cons_ne_nil _ _, ?_⟩
  intro d hd
  rcases List.mem_cons.1 hd with rfl | hd
  · exact hc
  · exact List.mem_takeWhile_imp hd

theorem numeral_number {c : Char} (hc : c.isDigit = true) (rest : List Char) :
    Numeral (c :: (rest.takeWhile Char.isDigit ++ (fraction (rest.dropWhile Char.isDigit)).1)) := by
  have hdigits := digits_takeWhile hc rest
  unfold fraction
  split
  · next d more _ =>
    split
    · next hd => exact .decimal hdigits (digits_takeWhile hd more)
    · simpa using Numeral.whole hdigits
  · simpa using Numeral.whole hdigits

/-- No number at the same place is longer than the one that is read. -/
theorem numeral_length_le {c : Char} {rest longer : List Char} (h : Numeral longer)
    (hinit : longer <+: c :: rest) :
    longer.length ≤
      (c :: (rest.takeWhile Char.isDigit ++
        (fraction (rest.dropWhile Char.isDigit)).1)).length := by
  cases h with
  | whole h =>
    have hle := length_le_takeWhile hinit h.2
    by_cases hc : c.isDigit = true
    · simp only [List.takeWhile_cons_of_pos hc, List.length_cons] at hle
      simp only [List.length_cons, List.length_append]
      omega
    · simp only [List.takeWhile_cons_of_neg hc, List.length_nil] at hle
      omega
  | @decimal digits places hdigits hplaces =>
    obtain ⟨d, ds, rfl, -⟩ := Lexeme.digits_head hdigits
    obtain ⟨q, qs, rfl, hq⟩ := Lexeme.digits_head hplaces
    obtain ⟨tail, htail⟩ := hinit
    simp only [List.cons_append, List.append_assoc, List.cons.injEq] at htail
    obtain ⟨rfl, rfl⟩ := htail
    have hds : ∀ x ∈ ds, x.isDigit = true := fun x hx => hdigits.2 x (List.mem_cons_of_mem _ hx)
    have hqs : ∀ x ∈ qs, x.isDigit = true := fun x hx => hplaces.2 x (List.mem_cons_of_mem _ hx)
    have hpoint : '.'.isDigit = false := by decide
    have htake : (ds ++ '.' :: q :: (qs ++ tail)).takeWhile Char.isDigit = ds := by
      simp [List.takeWhile_append_of_pos hds, hpoint]
    have hdrop : (ds ++ '.' :: q :: (qs ++ tail)).dropWhile Char.isDigit =
        '.' :: q :: (qs ++ tail) := by
      simp [List.dropWhile_append_of_pos hds, hpoint]
    have hle := length_le_takeWhile (List.prefix_append qs tail) hqs
    simp only [htake, hdrop, fraction, hq, if_true, List.length_cons, List.length_append]
    omega

theorem leads_number {c : Char} (hc : c.isDigit = true) (rest : List Char) :
    Leads (number c rest).1 (number c rest).2 := by
  have hslash : c ≠ '/' := by
    rintro rfl
    cases hc
  have htext : c :: (rest.takeWhile Char.isDigit ++ (fraction (rest.dropWhile Char.isDigit)).1) ++
      (fraction (rest.dropWhile Char.isDigit)).2 = c :: rest := by
    simp [fraction_append]
  refine .of_longest (.number (numeral_number hc rest)) htext (not_slashes hslash) ?_
  intro kind' longer literal' hlexeme hinit
  have hinit' : c :: longer <+: c :: rest := List.cons_prefix_cons.2 ⟨rfl, hinit⟩
  exact numeral_length_le (hlexeme.of_digit hc).1 hinit'

theorem leads_word {c : Char} (hc : isLetter c = true) (rest : List Char) :
    Leads (word c rest).1 (word c rest).2 := by
  have hslash : c ≠ '/' := by
    rintro rfl
    cases hc
  have htext : c :: rest.takeWhile isWordChar ++ rest.dropWhile isWordChar = c :: rest := by simp
  refine .of_longest (.word hc fun d hd => List.mem_takeWhile_imp hd) htext
    (not_slashes hslash) ?_
  intro kind' longer literal' hlexeme hinit
  have hle := length_le_takeWhile hinit (hlexeme.of_letter hc).1
  simp only [List.length_cons]
  omega

/-! ### The division that is read -/

/-- The first segment that is read is what the text starts with. -/
theorem leads_first (c : Char) (rest : List Char) : Leads (first c rest).1 (first c rest).2 := by
  unfold first
  cases hmark : mark? c with
  | some kind => exact leads_mark hmark rest
  | none =>
    cases hpair : pair? c with
    | some read =>
      obtain ⟨second, both, alone⟩ := read
      exact leads_pair hpair rest
    | none =>
      dsimp only
      split_ifs with hslash hblank hquote hdigit hletter
      · exact leads_slash rest
      · exact .blank (by simpa [isBlank, or_assoc] using hblank)
      · exact leads_string rest
      · exact leads_number hdigit rest
      · exact leads_word hletter rest
      · refine .stray (by simpa [isBlank, and_assoc] using hblank) hquote (not_slashes hslash) ?_
        intro kind text literal hlexeme hinit
        obtain ⟨d, more, rfl, -⟩ := hlexeme.head
        obtain ⟨rfl, -⟩ := List.cons_prefix_cons.1 hinit
        rw [Bool.not_eq_true] at hletter hdigit
        have hmem := (hlexeme.of_other hletter hdigit hquote).1
        rcases mark?_ne_none_or_pair?_ne_none hmem rfl with h | h | h
        · exact h hmark
        · exact h hpair
        · exact hslash h

theorem division_split (cs : List Char) : Division (split cs) cs := by
  fun_induction split cs with
  | case1 => exact .nil
  | case2 c rest ih =>
    have hcons := Division.cons (leads_first c rest) ih
    rwa [first_text_append] at hcons

/-! ### There is no other division -/

variable {segment other : Segment} {rest rest' : List Char}

/-- Where a token leads a text, nothing else does. -/
theorem Leads.eq_token {kind : Kind} {text : List Char} {literal : Option String}
    (h : Leads (.token kind text literal) rest) (h' : other.Leads rest')
    (heq : text ++ rest = other.text ++ rest') :
    other = .token kind text literal ∧ rest' = rest := by
  obtain ⟨c, more, htext, hblank⟩ : ∃ c more, text = c :: more ∧ isBlank c = false := by
    cases h with
    | token hlexeme => exact hlexeme.head
  cases h with
  | token hlexeme hslashes hlongest =>
    cases h' with
    | token hlexeme' _ hlongest' =>
      have hle := hlongest _ _ _ hlexeme' ⟨rest', heq.symm⟩
      have hle' := hlongest' _ _ _ hlexeme ⟨rest, heq⟩
      obtain ⟨rfl, rfl⟩ := List.append_inj heq (le_antisymm hle' hle)
      obtain ⟨rfl, rfl⟩ := hlexeme.kind_literal_eq hlexeme'
      exact ⟨rfl, rfl⟩
    | @blank d _ hd =>
      have hhead : c = d := by
        rw [htext] at heq
        exact (List.cons.inj heq).1
      subst hhead
      simp only [List.mem_cons, List.not_mem_nil, or_false] at hd
      rcases hd with rfl | rfl | rfl | rfl <;> cases hblank
    | @comment body _ _ _ => exact absurd ⟨body ++ rest', heq.symm⟩ hslashes
    | stray _ _ _ hnone => exact absurd ⟨rest, heq⟩ (hnone _ _ _ hlexeme)
    | unclosed hnone =>
      have hinit : text <+: _ := ⟨rest, heq.trans (List.append_nil _)⟩
      exact absurd hinit (hnone _ _ _ hlexeme)

/-- A comment ends where the line does. -/
theorem comment_inj {body body' : List Char} (hbody : '\n' ∉ body) (hbody' : '\n' ∉ body')
    (hrest : rest = [] ∨ rest.head? = some '\n') (hrest' : rest' = [] ∨ rest'.head? = some '\n')
    (heq : body ++ rest = body' ++ rest') : body = body' ∧ rest = rest' := by
  have htake : ∀ {us vs : List Char}, '\n' ∉ us → (vs = [] ∨ vs.head? = some '\n') →
      (us ++ vs).takeWhile (· != '\n') = us := by
    intro us vs hus hvs
    have hall : ∀ c ∈ us, (c != '\n') = true := fun c hc => by
      simp only [bne_iff_ne]
      rintro rfl
      exact hus hc
    rw [List.takeWhile_append_of_pos hall]
    rcases hvs with rfl | hvs
    · simp
    · obtain ⟨more, rfl⟩ := List.head?_eq_some_iff.1 hvs
      simp
  have hsame : body = body' := by rw [← htake hbody hrest, heq, htake hbody' hrest']
  subst hsame
  exact ⟨rfl, List.append_cancel_left heq⟩

/-- What leads a text is determined by the text. -/
theorem Leads.unique (h : segment.Leads rest) (h' : other.Leads rest')
    (heq : segment.text ++ rest = other.text ++ rest') : segment = other ∧ rest = rest' := by
  cases h with
  | token hlexeme hslashes hlongest =>
    obtain ⟨hsegment, hrest⟩ := Leads.eq_token (.token hlexeme hslashes hlongest) h' heq
    exact ⟨hsegment.symm, hrest.symm⟩
  | @blank c _ hc =>
    cases h' with
    | token hlexeme hslashes hlongest =>
      exact Leads.eq_token (.token hlexeme hslashes hlongest) (.blank hc) heq.symm
    | blank =>
      obtain ⟨rfl, rfl⟩ := List.cons.inj heq
      exact ⟨rfl, rfl⟩
    | comment =>
      obtain ⟨rfl, -⟩ := List.cons.inj heq
      exact absurd hc (by decide)
    | stray hnot =>
      obtain ⟨rfl, -⟩ := List.cons.inj heq
      exact absurd hc hnot
    | unclosed =>
      obtain ⟨rfl, -⟩ := List.cons.inj heq
      exact absurd hc (by decide)
  | comment hbody hrest =>
    cases h' with
    | token hlexeme hslashes hlongest =>
      exact Leads.eq_token (.token hlexeme hslashes hlongest) (.comment hbody hrest) heq.symm
    | blank hd =>
      obtain ⟨rfl, -⟩ := List.cons.inj heq
      exact absurd hd (by decide)
    | comment hbody' hrest' =>
      have hbodies := (List.cons.inj (List.cons.inj heq).2).2
      obtain ⟨rfl, rfl⟩ := comment_inj hbody hbody' hrest hrest' hbodies
      exact ⟨rfl, rfl⟩
    | stray _ _ hslashes => exact absurd ⟨_, heq⟩ hslashes
    | unclosed => cases (List.cons.inj heq).1
  | stray hnot hquote hslashes hnone =>
    cases h' with
    | token hlexeme hslashes' hlongest =>
      exact Leads.eq_token (.token hlexeme hslashes' hlongest)
        (.stray hnot hquote hslashes hnone) heq.symm
    | blank hd =>
      obtain ⟨rfl, -⟩ := List.cons.inj heq
      exact absurd hd hnot
    | comment => exact absurd ⟨_, heq.symm⟩ hslashes
    | stray =>
      obtain ⟨rfl, rfl⟩ := List.cons.inj heq
      exact ⟨rfl, rfl⟩
    | unclosed => exact absurd (List.cons.inj heq).1 hquote
  | unclosed hnone =>
    cases h' with
    | token hlexeme hslashes hlongest =>
      exact Leads.eq_token (.token hlexeme hslashes hlongest) (.unclosed hnone) heq.symm
    | blank hd =>
      obtain ⟨rfl, -⟩ := List.cons.inj heq
      exact absurd hd (by decide)
    | comment => cases (List.cons.inj heq).1
    | stray _ hquote => exact absurd (List.cons.inj heq).1.symm hquote
    | unclosed =>
      rw [List.append_nil, List.append_nil] at heq
      cases heq
      exact ⟨rfl, rfl⟩

theorem Leads.text_ne_nil (h : segment.Leads rest) : segment.text ≠ [] := by
  cases h with
  | token hlexeme =>
    obtain ⟨c, more, rfl, -⟩ := hlexeme.head
    exact List.cons_ne_nil c more
  | _ => exact List.cons_ne_nil _ _

theorem Division.unique {segments others : List Segment} {cs : List Char}
    (h : Division segments cs) (h' : Division others cs) : segments = others := by
  induction h generalizing others with
  | nil =>
    generalize hcs : ([] : List Char) = cs at h'
    cases h' with
    | nil => rfl
    | cons hleads =>
      have hnil := (List.append_eq_nil_iff.1 hcs.symm).1
      exact absurd hnil hleads.text_ne_nil
  | @cons segment segments rest hleads hrest ih =>
    generalize hcs : segment.text ++ rest = cs at h'
    cases h' with
    | nil =>
      have hnil := (List.append_eq_nil_iff.1 hcs).1
      exact absurd hnil hleads.text_ne_nil
    | cons hleads' hrest' =>
      obtain ⟨rfl, rfl⟩ := hleads.unique hleads' hcs
      rw [ih hrest']

theorem Division.text_ne_nil {segments : List Segment} {cs : List Char}
    (h : Division segments cs) : ∀ segment ∈ segments, segment.text ≠ [] := by
  induction h with
  | nil => simp
  | cons hleads _ ih => exact List.forall_mem_cons.2 ⟨hleads.text_ne_nil, ih⟩

/-! ### Lines -/

/-- Each segment with all the text before it, if `before` comes before the first. -/
def placed (before : List Char) : List Segment → List (List Char × Segment)
  | [] => []
  | segment :: rest => (before, segment) :: placed (before ++ segment.text) rest

/-- The token of a segment behind a text. Its line is the one on which the segment ends. -/
def tokenAt : List Char × Segment → Option Token
  | (before, .token kind text literal) =>
    some ⟨kind, String.ofList text, literal, (1 + (before ++ text).count '\n' : Nat)⟩
  | _ => none

/-- What is reported about a segment behind a text. The line is the one on which it starts. -/
def reportAt : List Char × Segment → Option Diagnostic
  | (before, .stray c) =>
    some (.static (1 + before.count '\n' : Nat) ("Unexpected character: '" ++ c.toString ++ "'.")
      none)
  | (before, .unclosed _) =>
    some (.static (1 + before.count '\n' : Nat) "Unterminated string." none)
  | _ => none

end Segment

namespace TokenStream

open Segment

theorem ofSegments_eq_placed (before : List Char) (segments : List Segment) :
    (ofSegments (1 + before.count '\n') segments).tokens =
        (placed before segments).filterMap tokenAt ++
          [⟨.eof, "", none, (1 + (before ++ segments.flatMap text).count '\n' : Nat)⟩] ∧
      (ofSegments (1 + before.count '\n') segments).reports =
        (placed before segments).filterMap reportAt := by
  induction segments generalizing before with
  | nil => simp [ofSegments, tokens, reports, placed]
  | cons segment rest ih =>
    obtain ⟨htokens, hreports⟩ := ih (before ++ segment.text)
    have hline : 1 + before.count '\n' + segment.newlines =
        1 + (before ++ segment.text).count '\n' := by
      rw [newlines, List.count_append, Nat.add_assoc]
    have hclose : before ++ (segment :: rest).flatMap text =
        before ++ segment.text ++ rest.flatMap text := by simp
    rw [← hline] at htokens hreports
    rw [hclose]
    cases segment with
    | token kind text literal =>
      have htoken : tokenAt (before, .token kind text literal) =
          some ⟨kind, String.ofList text, literal,
            (1 + before.count '\n' + text.count '\n' : Nat)⟩ := by
        rw [Nat.add_assoc, ← List.count_append]
        rfl
      refine ⟨?_, hreports⟩
      rw [placed, List.filterMap_cons_some htoken]
      exact congrArg (_ :: ·) htokens
    | blank c => exact ⟨htokens, hreports⟩
    | comment text => exact ⟨htokens, hreports⟩
    | stray c => exact ⟨htokens, congrArg (_ :: ·) hreports⟩
    | unclosed text => exact ⟨htokens, congrArg (_ :: ·) hreports⟩

/-- A source has exactly one division into segments each of which leads the text at its place. It
covers the source; its tokens, each the longest lexeme at its place, are those that are read, in the
same order and with the end behind them; and one report is made about each segment that is a fault.
Tokens are on the lines where they end, faults on those where they start. -/
theorem ofSource_division (source : String) :
    ∃ segments, Division segments source.toList ∧
      (∀ others, Division others source.toList → others = segments) ∧
      (∀ segment ∈ segments, segment.text ≠ []) ∧
      segments.flatMap text = source.toList ∧
      (ofSource source).tokens = (placed [] segments).filterMap tokenAt ++
        [⟨.eof, "", none, (1 + source.toList.count '\n' : Nat)⟩] ∧
      (ofSource source).reports = (placed [] segments).filterMap reportAt := by
  have hdivision := division_split source.toList
  have hcover := flatMap_text_split source.toList
  obtain ⟨htokens, hreports⟩ := ofSegments_eq_placed [] (split source.toList)
  rw [hcover] at htokens
  exact ⟨split source.toList, hdivision, fun others h => h.unique hdivision,
    hdivision.text_ne_nil, hcover, htokens, hreports⟩

end TokenStream

end Lox

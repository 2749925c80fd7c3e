import Lox.TokenStream
import Lox.Proofs.Relocation

/-!
# Texts joined by a line feed

No segment but a string can go on behind a line feed. So the segments of two texts
joined by a line feed are those of the first, the line feed and those of the second,
unless a string of the first is left open. The tokens of the second text come
further down by the lines of the first.
-/
namespace Lox

namespace Segment

/-- A segment that is no lexical fault. -/
def isClean : Segment → Bool
  | token .. | blank _ | comment _ => true
  | stray _ | unclosed _ => false

/-- A segment that is a closed piece of text. -/
def isClosed : Segment → Bool
  | unclosed _ => false
  | _ => true

theorem isClosed_of_isClean {segment : Segment} (h : segment.isClean) : segment.isClosed := by
  cases segment with
  | unclosed text => exact h
  | _ => rfl

section Append

variable {p : Char → Bool} (rest tail : List Char)

theorem takeWhile_append_newline (h : p '\n' = false) :
    (rest ++ '\n' :: tail).takeWhile p = rest.takeWhile p := by
  induction rest with
  | nil => simp [h]
  | cons c rest ih => by_cases hc : p c <;> simp [hc, ih]

theorem dropWhile_append_newline (h : p '\n' = false) :
    (rest ++ '\n' :: tail).dropWhile p = rest.dropWhile p ++ '\n' :: tail := by
  induction rest with
  | nil => simp [h]
  | cons c rest ih => by_cases hc : p c <;> simp [hc, ih]

theorem head?_append_newline {second : Char} (h : second ≠ '\n') :
    (rest ++ '\n' :: tail).head? = some second ↔ rest.head? = some second := by
  cases rest with
  | nil => simp [h.symm]
  | cons c rest => simp

theorem fraction_append_newline :
    fraction (rest ++ '\n' :: tail) =
      ((fraction rest).1, (fraction rest).2 ++ '\n' :: tail) := by
  match rest with
  | [] => rfl
  | [c] =>
    by_cases hc : c = '.'
    · subst hc
      rfl
    · simp [fraction, hc]
  | c :: d :: rest =>
    by_cases hc : c = '.'
    · subst hc
      by_cases hd : d.isDigit
      · simp [fraction, hd, takeWhile_append_newline, dropWhile_append_newline]
      · simp [fraction, hd]
    · simp [fraction, hc]

theorem second_ne_newline {c second : Char} {both : Kind} {alone : Option Kind}
    (h : pair? c = some (second, both, alone)) : second ≠ '\n' := by
  unfold pair? at h
  split at h <;> cases h <;> decide

theorem pair_append_newline (c : Char) {second : Char} (both : Kind) (alone : Option Kind)
    (h : second ≠ '\n') :
    pair c second both alone (rest ++ '\n' :: tail) =
      ((pair c second both alone rest).1,
        (pair c second both alone rest).2 ++ '\n' :: tail) := by
  unfold pair
  rw [if_congr (head?_append_newline rest tail h) rfl rfl]
  split
  · next hhead =>
    have hne : rest ≠ [] := by
      rintro rfl
      cases hhead
    rw [List.tail_append_of_ne_nil hne]
  · cases alone <;> rfl

theorem slash_append_newline :
    slash (rest ++ '\n' :: tail) = ((slash rest).1, (slash rest).2 ++ '\n' :: tail) := by
  unfold slash
  rw [if_congr (head?_append_newline rest tail (by decide)) rfl rfl,
    takeWhile_append_newline rest tail (by decide),
    dropWhile_append_newline rest tail (by decide)]
  split <;> rfl

theorem number_append_newline (c : Char) :
    number c (rest ++ '\n' :: tail) =
      ((number c rest).1, (number c rest).2 ++ '\n' :: tail) := by
  unfold number
  rw [takeWhile_append_newline rest tail (by decide),
    dropWhile_append_newline rest tail (by decide), fraction_append_newline]

theorem word_append_newline (c : Char) :
    word c (rest ++ '\n' :: tail) = ((word c rest).1, (word c rest).2 ++ '\n' :: tail) := by
  unfold word
  rw [takeWhile_append_newline rest tail (by decide),
    dropWhile_append_newline rest tail (by decide)]

end Append

/-- A closed string stays as it is when more text follows. -/
theorem closeString_append_right {cs text contents rest : List Char} (tail : List Char)
    (h : closeString cs = some (text, contents, rest)) :
    closeString (cs ++ tail) = some (text, contents, rest ++ tail) := by
  fun_induction closeString cs generalizing text contents rest with
  | case1 => cases h
  | case2 behind =>
    cases h
    rfl
  | case3 c behind ih =>
    obtain ⟨⟨text', contents', rest'⟩, hr, he⟩ := Option.map_eq_some_iff.1 h
    cases he
    simp [closeString, ih hr]
  | case4 c behind hquote hescape ih =>
    obtain ⟨⟨text', contents', rest'⟩, hr, he⟩ := Option.map_eq_some_iff.1 h
    cases he
    -- An open backslash would leave the string open, so one more character follows.
    obtain ⟨d, behind, rfl⟩ : ∃ d more, behind = d :: more := by
      cases behind with
      | nil => cases hr
      | cons d more => exact ⟨d, more, rfl⟩
    have hc : c ≠ '\\' := fun he => hescape d behind he rfl
    have hih := ih hr
    simp only [List.cons_append] at hih ⊢
    rw [closeString]
    · rw [hih]
      rfl
    · exact hquote
    · intro _ _ he
      exact absurd he hc

theorem string_append_right (rest tail : List Char) (hclosed : (string rest).1.isClosed) :
    string (rest ++ tail) = ((string rest).1, (string rest).2 ++ tail) := by
  unfold string at hclosed ⊢
  cases h : closeString rest with
  | none =>
    rw [h] at hclosed
    cases hclosed
  | some read =>
    obtain ⟨text, contents, after⟩ := read
    rw [closeString_append_right tail h]

/-- The first segment stops before a line feed that follows the text, unless it is a string left
open. -/
theorem first_append_newline (c : Char) (rest tail : List Char)
    (hclosed : (first c rest).1.isClosed) :
    first c (rest ++ '\n' :: tail) =
      ((first c rest).1, (first c rest).2 ++ '\n' :: tail) := by
  unfold first at hclosed ⊢
  cases hmark : mark? c with
  | some kind => rfl
  | none =>
    cases hpair : pair? c with
    | some marks =>
      obtain ⟨second, both, alone⟩ := marks
      exact pair_append_newline rest tail c both alone (second_ne_newline hpair)
    | none =>
      rw [hmark, hpair] at hclosed
      dsimp only at hclosed ⊢
      split_ifs at hclosed ⊢ with hslash hblank hquote hdigit hletter
      · exact slash_append_newline rest tail
      · rfl
      · exact string_append_right rest _ hclosed
      · exact number_append_newline rest tail c
      · exact word_append_newline rest tail c
      · rfl

/-- Dividing joined texts is dividing each of them. -/
theorem split_append_newline (cs tail : List Char)
    (hclosed : ∀ segment ∈ split cs, segment.isClosed) :
    split (cs ++ '\n' :: tail) = split cs ++ blank '\n' :: split tail := by
  fun_induction split cs with
  | case1 =>
    rw [List.nil_append, split]
    rfl
  | case2 c rest ih =>
    have hfirst := first_append_newline c rest tail (hclosed _ List.mem_cons_self)
    rw [List.cons_append, split, hfirst, List.cons_append]
    rw [ih fun segment h => hclosed segment (List.mem_cons_of_mem _ h)]

theorem ofWord_ne_eof (word : String) : Kind.ofWord word ≠ .eof := by
  unfold Kind.ofWord
  cases h : Kind.reserved.lookup word with
  | none => decide
  | some kind =>
    obtain ⟨before, after, heq, _⟩ := List.lookup_eq_some_iff.1 h
    have hall : ∀ entry ∈ Kind.reserved, entry.2 ≠ .eof := by decide
    exact hall (word, kind) (by simp [heq])

/-- The end of a source is no part of its text. -/
theorem first_ne_eof (c : Char) (rest text : List Char) (literal : Option String) :
    (first c rest).1 ≠ token .eof text literal := by
  unfold first
  split
  · next kind hmark =>
    unfold mark? at hmark
    intro h
    split at hmark <;> cases hmark <;> cases h
  split
  · next second both alone hpair =>
    unfold pair? at hpair
    unfold pair
    intro h
    split at hpair <;> cases hpair <;> split at h <;> cases h
  split_ifs
  · unfold slash
    intro h
    split at h <;> cases h
  · exact Segment.noConfusion
  · unfold string
    intro h
    split at h <;> cases h
  · intro h
    cases h
  · unfold word
    intro h
    exact ofWord_ne_eof _ (Segment.token.inj h).1
  · exact Segment.noConfusion

theorem split_ne_eof {cs : List Char} {segment : Segment} (h : segment ∈ split cs)
    (text : List Char) (literal : Option String) : segment ≠ token .eof text literal := by
  fun_induction split cs with
  | case1 => cases h
  | case2 c rest ih =>
    rcases List.mem_cons.1 h with rfl | h
    · exact first_ne_eof c rest text literal
    · exact ih h

end Segment

namespace TokenStream

open Segment

/-- Behind a division into segments comes that of the text which follows, on the lines where it
stands. -/
theorem ofSegments_append (line : Nat) (segments following : List Segment) :
    ofSegments line (segments ++ following) =
      { body := (ofSegments line segments).body ++
          (ofSegments (line + (segments.map newlines).sum) following).body
        close := (ofSegments (line + (segments.map newlines).sum) following).close
        faults := (ofSegments line segments).faults ++
          (ofSegments (line + (segments.map newlines).sum) following).faults } := by
  induction segments generalizing line with
  | nil => rfl
  | cons segment rest ih =>
    have hline : line + ((segment :: rest).map newlines).sum =
        line + segment.newlines + (rest.map newlines).sum := by
      rw [List.map_cons, List.sum_cons, Nat.add_assoc]
    rw [hline]
    cases segment <;> simp only [List.cons_append, ofSegments, ih]

/-- Tokens come further down with the line on which their text starts. -/
theorem body_ofSegments_add (line lines : Nat) (segments : List Segment) :
    (ofSegments (line + lines) segments).body =
      (ofSegments line segments).body.map (Relocation.down lines).move := by
  induction segments generalizing line with
  | nil => rfl
  | cons segment rest ih =>
    have hrest := ih (line + segment.newlines)
    have hline : line + lines + segment.newlines = line + segment.newlines + lines := by omega
    cases segment with
    | token kind text literal =>
      simp only [ofSegments, hline, hrest, List.map_cons]
      rfl
    | _ => simp only [ofSegments, hline, hrest]

theorem faults_ofSegments_eq_nil (line : Nat) (segments : List Segment) :
    (ofSegments line segments).faults = [] ↔ ∀ segment ∈ segments, segment.isClean := by
  induction segments generalizing line with
  | nil => simp [ofSegments]
  | cons segment rest ih =>
    have hrest := ih (line + segment.newlines)
    cases segment <;> simp [ofSegments, hrest, isClean]

theorem exists_segment_of_mem_body {line : Nat} {segments : List Segment} {t : Token}
    (h : t ∈ (ofSegments line segments).body) :
    ∃ text literal, token t.kind text literal ∈ segments := by
  induction segments generalizing line with
  | nil => cases h
  | cons segment rest ih => 
    cases segment with
    | token kind text literal =>
      rcases List.mem_cons.1 h with rfl | h
      · exact ⟨text, literal, List.mem_cons_self⟩
      · obtain ⟨text', literal', hmem⟩ := ih h
        exact ⟨text', literal', List.mem_cons_of_mem _ hmem⟩
    | _ =>
      obtain ⟨text, literal, hmem⟩ := ih h
      exact ⟨text, literal, List.mem_cons_of_mem _ hmem⟩

theorem kind_ne_eof_of_mem_body {source : String} {t : Token} (h : t ∈ (ofSource source).body) :
    t.kind ≠ .eof := by
  obtain ⟨text, literal, hmem⟩ := exists_segment_of_mem_body h
  intro hkind
  exact split_ne_eof hmem text literal (hkind ▸ rfl)

theorem toList_join (a b : String) : (a ++ "\n" ++ b).toList = a.toList ++ '\n' :: b.toList := by
  simp

theorem sum_newlines_split (cs : List Char) :
    ((split cs).map newlines).sum = cs.count '\n' := by
  conv_rhs => rw [← flatMap_text_split cs]
  rw [List.count_flatMap]
  rfl

/-- The tokens of joined sources are those of the first and, further down, those of the second. -/
theorem body_ofSource_join (a b : String) (h : (ofSource a).faults = []) :
    (ofSource (a ++ "\n" ++ b)).body = (ofSource a).body ++
      (ofSource b).body.map (Relocation.down (a.toList.count '\n' + 1)).move := by
  have hclosed : ∀ segment ∈ split a.toList, segment.isClosed := fun segment hmem =>
    isClosed_of_isClean ((faults_ofSegments_eq_nil 1 _).1 h segment hmem)
  unfold ofSource
  rw [toList_join, split_append_newline _ _ hclosed, ofSegments_append, sum_newlines_split]
  rw [← body_ofSegments_add, ← Nat.add_assoc]
  rfl

/-- Joined sources have no lexical fault if neither of them has one. -/
theorem faults_ofSource_join {a b : String} (ha : (ofSource a).faults = [])
    (hb : (ofSource b).faults = []) : (ofSource (a ++ "\n" ++ b)).faults = [] := by
  unfold ofSource at ha hb ⊢
  rw [faults_ofSegments_eq_nil] at ha hb ⊢
  have hclosed : ∀ segment ∈ split a.toList, segment.isClosed := fun segment hmem =>
    isClosed_of_isClean (ha segment hmem)
  rw [toList_join, split_append_newline _ _ hclosed]
  intro segment hmem
  rcases List.mem_append.1 hmem with hmem | hmem
  · exact ha segment hmem
  · rcases List.mem_cons.1 hmem with rfl | hmem
    · rfl
    · exact hb segment hmem

end TokenStream

end Lox

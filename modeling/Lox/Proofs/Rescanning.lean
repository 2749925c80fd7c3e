import Lox.Proofs.JoinedText
import Lox.Proofs.WrittenPrograms

/-!
# Lexemes that are read again

What a lexeme is does not depend on where it stands. In front of a blank character, or at
the end, it is the longest lexeme at its place, so the lexemes of a source that are written
down again, with any blank characters and comments between them, are read as the same
tokens. A string goes as far as the quote that closes it, whatever follows. So a text in
quotes, with its backslashes and quotes escaped, is read as a string of just this text.
-/
namespace Lox

namespace Segment

open Lexeme (Quoted)

/-! ### Lexemes before a blank character -/

theorem isBlank_eq_false_of_isWordChar {c : Char} (h : isWordChar c = true) :
    isBlank c = false := by
  by_contra hblank
  obtain ⟨hletter, hdigit, -⟩ := Lexeme.isLetter_of_isBlank (by simpa using hblank)
  rw [isWordChar, hletter, hdigit] at h
  cases h

theorem isBlank_eq_false_of_isDigit {c : Char} (h : c.isDigit = true) : isBlank c = false :=
  isBlank_eq_false_of_isWordChar (by rw [isWordChar, h, Bool.or_true])

variable {kind : Kind} {text rest : List Char} {literal : Option String}

/-- Only strings have blank characters inside. -/
theorem isBlank_eq_false_of_mem {c : Char} (h : Lexeme kind text literal)
    (hquote : text.head? ≠ some '"') (hc : c ∈ text) : isBlank c = false := by
  cases h with
  | mark hmark =>
    have hall : ∀ entry ∈ Kind.marks, entry.1.all (!isBlank ·) = true := by decide
    simpa using List.all_eq_true.1 (hall _ hmark) c hc
  | word hletter hrest =>
    refine isBlank_eq_false_of_isWordChar ?_
    rcases List.mem_cons.1 hc with rfl | hc
    · rw [isWordChar, hletter, Bool.true_or]
    · exact hrest c hc
  | number hnumeral =>
    cases hnumeral with
    | whole hdigits => exact isBlank_eq_false_of_isDigit (hdigits.2 c hc)
    | decimal hdigits hplaces =>
      rcases List.mem_append.1 hc with hc | hc
      · exact isBlank_eq_false_of_isDigit (hdigits.2 c hc)
      · rcases List.mem_cons.1 hc with rfl | hc
        · decide
        · exact isBlank_eq_false_of_isDigit (hplaces.2 c hc)
  | string => exact absurd rfl hquote

/-- A string ends with the quote that closes it. -/
theorem length_le_of_quoted {text contents longer : List Char} (h : Quoted text contents)
    (hlonger : Lexeme kind ('"' :: longer) literal) (hinit : longer <+: text ++ '"' :: rest) :
    longer.length ≤ text.length + 1 := by
  obtain ⟨text', contents', hquoted, rfl, -⟩ := hlonger.of_quote
  obtain ⟨rest', hrest⟩ := hinit
  have hread := closeString_of_quoted hquoted rest'
  rw [List.append_assoc] at hrest
  rw [show text' ++ '"' :: rest' = text ++ '"' :: rest from hrest, closeString_of_quoted h] at hread
  have heq : text ++ ['"'] = text' ++ ['"'] := (Prod.mk.inj (Option.some.inj hread)).1
  rw [← heq, List.length_append, List.length_singleton]

/-- A lexeme leads a text if nothing or a blank character follows it. -/
theorem leads_of_lexeme (h : Lexeme kind text literal)
    (hrest : ∀ b ∈ rest.head?, isBlank b = true) : Leads (.token kind text literal) rest := by
  obtain ⟨c, more, rfl, -⟩ := h.head
  refine .of_longest h List.cons_append ?_ fun kind' longer literal' hlonger hinit => ?_
  · intro hslashes
    obtain ⟨rfl, hsecond⟩ := List.cons_prefix_cons.1 hslashes
    have honly : ∀ entry ∈ Kind.marks, entry.1.head? = some '/' → entry.1 = ['/'] := by decide
    have hmore : '/' :: more = ['/'] :=
      honly _ (h.of_other (by decide) (by decide) (by decide)).1 rfl
    obtain rfl := (List.cons.inj hmore).2
    obtain ⟨rest', rfl⟩ := hsecond
    exact absurd (hrest '/' rfl) (by decide)
  · by_cases hquote : c = '"'
    · subst hquote
      obtain ⟨inner, contents, hquoted, rfl, -⟩ := h.of_quote
      rw [List.append_assoc] at hinit
      have hle := length_le_of_quoted hquoted hlonger hinit
      simp only [List.length_cons, List.length_append, List.length_nil]
      omega
    · -- a longer one would go on with the blank character
      by_contra hlt
      rw [List.length_cons] at hlt
      obtain ⟨tail, rfl⟩ :=
        List.prefix_of_prefix_length_le (List.prefix_append more rest) hinit (by omega)
      have htail := (List.prefix_append_right_inj more).1 hinit
      cases tail with
      | nil => simp at hlt
      | cons b tail =>
        obtain ⟨rest', rfl⟩ := htail
        have hblank := hrest b rfl
        have hmem : b ∈ c :: (more ++ b :: tail) := by simp
        have hhead : (c :: (more ++ b :: tail)).head? ≠ some '"' := by simpa using hquote
        rw [isBlank_eq_false_of_mem hlonger hhead hmem] at hblank
        cases hblank

end Segment

/-! ### Lexemes with space between them -/

open Segment (isBlank)

/-- A piece of the space between lexemes: a blank character, or a comment with the line feed that
ends it. -/
inductive Spacing where
  | blank (c : Char) (isBlank_c : isBlank c = true)
  | comment (body : List Char) (newline_notMem : '\n' ∉ body)

namespace Spacing

/-- The characters of a piece of space. -/
def text : Spacing → List Char
  | blank c _ => [c]
  | comment body _ => '/' :: '/' :: (body ++ ['\n'])

/-- The segments of a piece of space. -/
def segments : Spacing → List Segment
  | blank c _ => [.blank c]
  | comment body _ => [.comment ('/' :: '/' :: body), .blank '\n']

end Spacing

/-- Space that keeps two lexemes apart. It begins with a blank character. -/
structure Separator where
  lead : Char
  isBlank_lead : isBlank lead = true
  more : List Spacing

namespace Separator

/-- The characters of a separator. -/
def text (separator : Separator) : List Char :=
  separator.lead :: separator.more.flatMap Spacing.text

/-- The segments of a separator. -/
def segments (separator : Separator) : List Segment :=
  .blank separator.lead :: separator.more.flatMap Spacing.segments

end Separator

/-- The lexemes in order, with the first separator behind the first lexeme and so on. -/
def weave (separators : Nat → Separator) : List (List Char) → List Char
  | [] => []
  | [lexeme] => lexeme
  | lexeme :: next :: rest =>
    lexeme ++ ((separators 0).text ++ weave (fun i => separators (i + 1)) (next :: rest))

/-- The lexemes of a source with other separators between them. -/
def respaced (separators : Nat → Separator) (source : String) : String :=
  String.ofList (weave separators
    ((TokenStream.ofSource source).body.map fun t => t.lexeme.toList))

namespace Segment

variable {segments : List Segment} {cs : List Char}

theorem leads_blank {c : Char} (h : isBlank c = true) (rest : List Char) :
    Leads (.blank c) rest :=
  .blank (by simpa [isBlank, or_assoc] using h)

theorem Division.spacing (piece : Spacing) (h : Division segments cs) :
    Division (piece.segments ++ segments) (piece.text ++ cs) := by
  cases piece with
  | blank c hblank => exact .cons (leads_blank hblank cs) h
  | comment body hbody =>
    have hend : Division (.blank '\n' :: segments) ('\n' :: cs) :=
      .cons (leads_blank (by decide) cs) h
    have hcomment := Division.cons (.comment hbody (.inr rfl)) hend
    simpa [Spacing.segments, Spacing.text, Segment.text] using hcomment

theorem Division.spacings (pieces : List Spacing) (h : Division segments cs) :
    Division (pieces.flatMap Spacing.segments ++ segments)
      (pieces.flatMap Spacing.text ++ cs) := by
  induction pieces with
  | nil => exact h
  | cons piece more ih =>
    rw [List.flatMap_cons, List.flatMap_cons, List.append_assoc, List.append_assoc]
    exact ih.spacing piece

theorem Division.separator (separator : Separator) (h : Division segments cs) :
    Division (separator.segments ++ segments) (separator.text ++ cs) :=
  .cons (leads_blank separator.isBlank_lead _) (h.spacings separator.more)

/-- A segment that means nothing. -/
def isSpace : Segment → Bool
  | blank _ | comment _ => true
  | token .. | stray _ | unclosed _ => false

end Segment

theorem Separator.isSpace_of_mem (separator : Separator) :
    ∀ segment ∈ separator.segments, segment.isSpace = true := by
  have hmore : ∀ segment ∈ separator.more.flatMap Spacing.segments, segment.isSpace = true := by
    intro segment hmem
    obtain ⟨piece, -, hpiece⟩ := List.mem_flatMap.1 hmem
    cases piece with
    | blank c _ =>
      rw [List.mem_singleton.1 hpiece]
      rfl
    | comment body _ =>
      simp only [Spacing.segments, List.mem_cons, List.not_mem_nil, or_false] at hpiece
      rcases hpiece with rfl | rfl <;> rfl
  exact List.forall_mem_cons.2 ⟨rfl, hmore⟩

namespace TokenStream

open Segment

theorem ofSegments_space {space : List Segment} (h : ∀ segment ∈ space, segment.isSpace = true)
    (line : Nat) : (ofSegments line space).body = [] ∧ (ofSegments line space).faults = [] := by
  induction space generalizing line with
  | nil => exact ⟨rfl, rfl⟩
  | cons segment rest ih =>
    obtain ⟨hsegment, hrest⟩ := List.forall_mem_cons.1 h
    have hbelow := ih hrest (line + segment.newlines)
    cases segment with
    | blank c => exact hbelow
    | comment text => exact hbelow
    | token | stray | unclosed => cases hsegment

/-- Lexemes with separators between them divide into themselves and space. -/
theorem division_weave (separators : Nat → Separator) {tokens : List Token}
    (h : ∀ t ∈ tokens, t.Lexical) :
    ∃ segments, Division segments (weave separators (tokens.map fun t => t.lexeme.toList)) ∧
      ∀ line, (ofSegments line segments).faults = [] ∧
        List.Forall₂ Token.SameText (ofSegments line segments).body tokens := by
  induction tokens generalizing separators with
  | nil => exact ⟨[], .nil, fun line => ⟨rfl, .nil⟩⟩
  | cons t tokens ih =>
    obtain ⟨ht, htokens⟩ := List.forall_mem_cons.1 h
    have hsame : ∀ line,
        Token.SameText ⟨t.kind, String.ofList t.lexeme.toList, t.literal, line⟩ t :=
      fun line => ⟨rfl, String.ofList_toList, rfl⟩
    cases tokens with
    | nil =>
      have hlast := Division.cons (leads_of_lexeme ht (by simp)) .nil
      rw [List.append_nil] at hlast
      exact ⟨_, hlast, fun line => ⟨rfl, .cons (hsame _) .nil⟩⟩
    | cons next tokens =>
      obtain ⟨segments, hdivision, hsegments⟩ := ih (fun i => separators (i + 1)) htokens
      refine ⟨.token t.kind t.lexeme.toList t.literal :: ((separators 0).segments ++ segments),
        ?_, fun line => ?_⟩
      · have hblank : ∀ b ∈ ((separators 0).text ++ weave (fun i => separators (i + 1))
            ((next :: tokens).map fun t => t.lexeme.toList)).head?, isBlank b = true := by
          intro b hb
          obtain rfl := Option.some.inj hb
          exact (separators 0).isBlank_lead
        exact Division.cons (leads_of_lexeme ht hblank) (hdivision.separator (separators 0))
      · have hspace := ofSegments_space (separators 0).isSpace_of_mem
        rw [ofSegments, ofSegments_append]
        simp only [(hspace _).1, (hspace _).2, List.nil_append]
        exact ⟨(hsegments _).1, .cons (hsame _) (hsegments _).2⟩

theorem exists_close_eq (line : Nat) (segments : List Segment) :
    ∃ after, (ofSegments line segments).close = ⟨.eof, "", none, after⟩ := by
  induction segments generalizing line with
  | nil => exact ⟨line, rfl⟩
  | cons segment rest ih => cases segment <;> exact ih _

/-- The lexemes of a source, written down again with any separators between them, are read without
a fault as tokens of the same classes, texts and payloads in the same order, and the end behind
them. -/
theorem ofSource_respaced (source : String) (separators : Nat → Separator) :
    (ofSource (respaced separators source)).reports = [] ∧
      List.Forall₂ Token.SameText (ofSource (respaced separators source)).body
        (ofSource source).body ∧
      ∃ line, (ofSource (respaced separators source)).tokens =
        (ofSource (respaced separators source)).body ++ [⟨.eof, "", none, line⟩] := by
  have hlexical : ∀ t ∈ (ofSource source).body, t.Lexical := fun t => lexical_of_mem_body
  obtain ⟨segments, hdivision, hsegments⟩ := division_weave separators hlexical
  have hrespaced : ofSource (respaced separators source) = ofSegments 1 segments := by
    rw [ofSource, respaced, String.toList_ofList, (division_split _).unique hdivision]
  obtain ⟨line, hclose⟩ := exists_close_eq 1 segments
  obtain ⟨hfaults, hbody⟩ := hsegments 1
  rw [hrespaced]
  refine ⟨?_, hbody, line, ?_⟩
  · rw [reports, hfaults, List.map_nil]
  · rw [tokens, hclose]

-- A word may stand right behind a number, but not a number behind a word.
example : respaced (fun _ => ⟨'\t', rfl, [.comment ['/'] (by decide)]⟩) "1a@2" =
    "1\t///\na\t///\n2" := by decide +kernel

end TokenStream

/-! ### Texts in quotes -/

namespace Segment

open Lexeme (Quoted)

/-- How a character is written in a string. Line feeds and tabs may also stand for themselves. -/
def spell (raw : Bool) : Char → List Char
  | '\\' => ['\\', '\\']
  | '"' => ['\\', '"']
  | '\n' => if raw then ['\n'] else ['\\', 'n']
  | '\t' => if raw then ['\t'] else ['\\', 't']
  | c => [c]

/-- How a text is written in a string. It is chosen at each place whether a line feed or tab that
stands there is written raw. -/
def spellAll (raw : Nat → Bool) (contents : List Char) : List Char :=
  (contents.mapIdx fun i c => spell (raw i) c).flatten

theorem quoted_spell {text contents : List Char} (h : Quoted text contents) (raw : Bool)
    (c : Char) : Quoted (spell raw c ++ text) (c :: contents) := by
  unfold spell
  split
  · exact .known (by decide) h
  · exact .known (by decide) h
  · cases raw with
    | true => exact .plain (by decide) (by decide) h
    | false => exact .known (by decide) h
  · cases raw with
    | true => exact .plain (by decide) (by decide) h
    | false => exact .known (by decide) h
  · next hbackslash hquote _ _ => exact .plain hquote hbackslash h

/-- What is written for a text stands for the text. -/
theorem quoted_spellAll (raw : Nat → Bool) (contents : List Char) :
    Quoted (spellAll raw contents) contents := by
  induction contents generalizing raw with
  | nil => exact .nil
  | cons c contents ih =>
    have hspell := quoted_spell (ih fun i => raw (i + 1)) (raw 0) c
    simpa [spellAll, List.mapIdx_cons] using hspell

/-- A string is the first segment of every text that begins with it. -/
theorem split_quoted {text contents : List Char} (h : Quoted text contents) (rest : List Char) :
    split ('"' :: text ++ ['"'] ++ rest) =
      .token .string ('"' :: text ++ ['"']) (some (String.ofList contents)) :: split rest := by
  have hfirst : first '"' (text ++ '"' :: rest) =
      (.token .string ('"' :: text ++ ['"']) (some (String.ofList contents)), rest) := by
    change string _ = _
    rw [string, closeString_of_quoted h]
    rfl
  have happend : '"' :: text ++ ['"'] ++ rest = '"' :: (text ++ '"' :: rest) := by simp
  rw [happend, split, hfirst]

end Segment

/-- A text as a string literal: in quotes, with its backslashes and quotes escaped. -/
def stringLiteral (raw : Nat → Bool) (s : String) : String :=
  String.ofList ('"' :: Segment.spellAll raw s.toList ++ ['"'])

namespace TokenStream

open Segment

/-- The token of a string literal that stands at the beginning of a source. -/
def literalToken (raw : Nat → Bool) (s : String) : Token :=
  ⟨.string, stringLiteral raw s, some s, (1 + (stringLiteral raw s).toList.count '\n' : Nat)⟩

/-- The token of a literal comes before those of the text that follows. -/
theorem ofSource_stringLiteral_append (raw : Nat → Bool) (s rest : String) :
    ofSource (stringLiteral raw s ++ rest) =
      let stream := ofSegments (1 + (stringLiteral raw s).toList.count '\n') (split rest.toList)
      { stream with body := literalToken raw s :: stream.body } := by
  have htext : (stringLiteral raw s).toList = '"' :: spellAll raw s.toList ++ ['"'] :=
    String.toList_ofList
  rw [ofSource, String.toList_append, htext, split_quoted (quoted_spellAll raw s.toList),
    String.ofList_toList, ofSegments, newlines, Segment.text, ← htext, String.ofList_toList]
  rfl

/-- Every text can be written as a string literal, in each of the ways to write its line feeds and
tabs. The literal is read without a fault as one token with the text as its payload, and it is the
first token of every source that begins with it. -/
theorem ofSource_stringLiteral (raw : Nat → Bool) (s : String) :
    (ofSource (stringLiteral raw s)).reports = [] ∧
      (ofSource (stringLiteral raw s)).tokens =
        [literalToken raw s, ⟨.eof, "", none, (literalToken raw s).line⟩] ∧
      ∀ rest, (ofSource (stringLiteral raw s ++ rest)).tokens.head? =
        some (literalToken raw s) := by
  have halone := ofSource_stringLiteral_append raw s ""
  have hnothing : split "".toList = [] := by simp [split]
  rw [String.append_empty, hnothing] at halone
  rw [halone]
  refine ⟨rfl, rfl, fun rest => ?_⟩
  rw [ofSource_stringLiteral_append]
  rfl

-- The quote that is escaped does not close the literal, and the backslash before the last quote
-- does not escape it.
example : stringLiteral (fun _ => false) "\"\n\\" = "\"\\\"\\n\\\\\"" := by decide +kernel

end TokenStream

end Lox

import Lox.Syntax.Printer
import Lox.Proofs.NumberText

/-!
# Prefix notation

Texts in prefix notation are words, and forms made of texts between parentheses. A word
has no delimiters in it, or it stands between quotes. Then a text shows where it ends, and
a list of texts on one line, or of texts on lines of their own, is read in one way.
-/
namespace Lox

/-- A text in prefix notation by its parts. -/
inductive SExpr where
  | word (text : String)
  | form (parts : List SExpr)

namespace SExpr

mutual

/-- The characters of a tree. -/
def text : SExpr → List Char
  | .word text => text.toList
  | .form parts => '(' :: ([' '].intercalate (textAll parts) ++ [')'])

/-- The characters of the trees of a list, one text each. -/
def textAll : List SExpr → List (List Char)
  | [] => []
  | t :: rest => t.text :: textAll rest

end

/-- The characters that words are kept apart by. -/
def delimiters : List Char := [' ', '\n', '(', ')', '"']

/-- The characters that may follow a tree. -/
def stops : List Char := [' ', '\n', ')']

/-- Without delimiters, or between quotes without a quote inside. -/
inductive IsWord : List Char → Prop
  | plain {text : List Char} : text ≠ [] → (∀ c ∈ text, c ∉ delimiters) → IsWord text
  | quoted {text : List Char} : '"' ∉ text → IsWord ('"' :: (text ++ ['"']))

/-- All words of the tree can be told where they end. -/
inductive Readable : SExpr → Prop
  | word {text : String} : IsWord text.toList → Readable (.word text)
  | form {parts : List SExpr} : (∀ t ∈ parts, t.Readable) → Readable (.form parts)

/-- A tree may end before this text. -/
def MayEnd (rest : List Char) : Prop := ∀ c ∈ rest.head?, c ∈ stops

/-- A list of trees ends before this text. -/
def Closed (rest : List Char) : Prop := ∀ c ∈ rest.head?, c = ')'

theorem Closed.mayEnd {rest : List Char} (h : Closed rest) : MayEnd rest := by
  intro c hc
  rw [h c hc]
  decide

theorem IsWord.head {text : List Char} (h : IsWord text) :
    ∃ c more, text = c :: more ∧ (c ∉ delimiters ∨ c = '"') := by
  cases h with
  | plain hne hplain =>
    obtain ⟨c, more, rfl⟩ := List.exists_cons_of_ne_nil hne
    exact ⟨c, more, rfl, .inl (hplain c List.mem_cons_self)⟩
  | quoted => exact ⟨_, _, rfl, .inr rfl⟩

/-- A word shows where it ends. -/
theorem IsWord.append_inj {text text' rest rest' : List Char} (h : IsWord text) (h' : IsWord text')
    (hrest : MayEnd rest) (hrest' : MayEnd rest') (heq : text ++ rest = text' ++ rest') :
    text = text' ∧ rest = rest' := by
  have hstop : ∀ c ∈ stops, decide (c ∉ delimiters) = false := by simp [stops, delimiters]
  cases h with
  | plain hne hplain =>
    cases h' with
    | plain hne' hplain' =>
      exact Text.append_inj_of_stop (p := fun c => decide (c ∉ delimiters)) (by simpa using hplain)
        (by simpa using hplain') (fun c hc => hstop c (hrest c hc))
        (fun c hc => hstop c (hrest' c hc)) heq
    | quoted =>
      obtain ⟨c, more, rfl⟩ := List.exists_cons_of_ne_nil hne
      have hhead : c = '"' := (List.cons.inj heq).1
      exact absurd (hhead ▸ hplain c List.mem_cons_self) (by decide)
  | @quoted text hquote =>
    cases h' with
    | plain hne' hplain' =>
      obtain ⟨c, more, rfl⟩ := List.exists_cons_of_ne_nil hne'
      have hhead : '"' = c := (List.cons.inj heq).1
      exact absurd (hhead ▸ hplain' c List.mem_cons_self) (by decide)
    | @quoted text' hquote' =>
      have hinside {inside : List Char} (h : '"' ∉ inside) : ∀ c ∈ inside, (c != '"') = true := by
        intro c hc
        rw [bne_iff_ne]
        rintro rfl
        exact h hc
      simp only [List.cons_append, List.append_assoc, List.cons.injEq, true_and] at heq
      obtain ⟨rfl, hmore⟩ := Text.append_inj_of_stop (hinside hquote) (hinside hquote')
        (by simp) (by simp) heq
      exact ⟨rfl, (List.cons.inj hmore).2⟩

/-- A tree starts with a character that ends no list. -/
theorem Readable.head {t : SExpr} (h : t.Readable) : ∃ c more, t.text = c :: more ∧ c ≠ ')' := by
  cases h with
  | word h =>
    obtain ⟨c, more, htext, hc⟩ := h.head
    refine ⟨c, more, htext, ?_⟩
    rintro rfl
    exact absurd hc (by decide)
  | form => exact ⟨_, _, rfl, by decide⟩

theorem word_text_ne_form {text : String} {parts : List SExpr} {rest rest' : List Char}
    (h : IsWord text.toList) : (word text).text ++ rest ≠ (form parts).text ++ rest' := by
  intro heq
  obtain ⟨c, more, htext, hc⟩ := h.head
  rw [SExpr.text, htext] at heq
  have hhead : c = '(' := (List.cons.inj heq).1
  subst hhead
  exact absurd hc (by decide)

/-- What stands behind the first tree of a list: a separator and the other trees, if there are
any, and then the rest. -/
def behind (sep : Char) (more : List SExpr) (rest : List Char) : List Char :=
  match more with
  | [] => rest
  | u :: us => sep :: ([sep].intercalate (textAll (u :: us)) ++ rest)

section Behind

variable {sep : Char} {rest : List Char}

theorem intercalate_textAll_cons (t : SExpr) (more : List SExpr) :
    [sep].intercalate (textAll (t :: more)) ++ rest = t.text ++ behind sep more rest := by
  cases more <;> simp [textAll, behind, List.intercalate]

theorem mayEnd_behind (hsep : sep ∈ [' ', '\n']) (hrest : Closed rest) (more : List SExpr) :
    MayEnd (behind sep more rest) := by
  cases more with
  | nil => exact hrest.mayEnd
  | cons u us =>
    rintro c ⟨⟩
    exact (show ∀ c ∈ [' ', '\n'], c ∈ stops by simp [stops]) _ hsep

/-- The end of a list is not another tree of it. -/
theorem closed_ne_behind (hsep : sep ∈ [' ', '\n']) (hrest : Closed rest) (u : SExpr)
    (us : List SExpr) (rest' : List Char) : rest ≠ behind sep (u :: us) rest' := by
  rintro rfl
  have hend : sep = ')' := hrest sep rfl
  subst hend
  exact absurd hsep (by decide)

theorem closed_ne_text (hrest : Closed rest) {u : SExpr} (hu : u.Readable) (more : List Char) :
    rest ≠ u.text ++ more := by
  rintro rfl
  obtain ⟨c, others, htext, hc⟩ := hu.head
  exact hc (hrest c (by simp [htext]))

end Behind

mutual

/-- A tree shows where it ends. -/
theorem text_append_inj (t u : SExpr) (ht : t.Readable) (hu : u.Readable) {rest rest' : List Char}
    (hrest : MayEnd rest) (hrest' : MayEnd rest') (h : t.text ++ rest = u.text ++ rest') :
    t = u ∧ rest = rest' := by
  cases ht with
  | @word text hword =>
    cases hu with
    | word hword' =>
      obtain ⟨htext, hrest⟩ := hword.append_inj hword' hrest hrest' h
      rw [String.toList_inj.1 htext]
      exact ⟨rfl, hrest⟩
    | form => exact absurd h (word_text_ne_form hword)
  | @form parts hparts =>
    cases hu with
    | word hword' => exact absurd h.symm (word_text_ne_form hword')
    | @form parts' hparts' =>
      have hclosed (rest : List Char) : Closed (')' :: rest) := by simp [Closed]
      simp only [SExpr.text, List.cons_append, List.append_assoc, List.nil_append, List.cons.injEq,
        true_and] at h
      obtain ⟨rfl, hmore⟩ := textAll_append_inj parts parts' hparts hparts' ' ' (by decide)
        (hclosed rest) (hclosed rest') h
      exact ⟨rfl, (List.cons.inj hmore).2⟩

/-- A list of trees between separators is read in one way. -/
theorem textAll_append_inj (ts us : List SExpr) (hts : ∀ t ∈ ts, t.Readable)
    (hus : ∀ u ∈ us, u.Readable) (sep : Char) (hsep : sep ∈ [' ', '\n']) {rest rest' : List Char}
    (hrest : Closed rest) (hrest' : Closed rest')
    (h : [sep].intercalate (textAll ts) ++ rest = [sep].intercalate (textAll us) ++ rest') :
    ts = us ∧ rest = rest' := by
  cases ts with
  | nil =>
    cases us with
    | nil => exact ⟨rfl, h⟩
    | cons u us =>
      rw [intercalate_textAll_cons] at h
      exact absurd h (closed_ne_text hrest (hus u List.mem_cons_self) _)
  | cons t ts =>
    cases us with
    | nil =>
      rw [intercalate_textAll_cons] at h
      exact absurd h.symm (closed_ne_text hrest' (hts t List.mem_cons_self) _)
    | cons u us =>
      rw [intercalate_textAll_cons, intercalate_textAll_cons] at h
      obtain ⟨rfl, hmore⟩ := text_append_inj t u (hts t List.mem_cons_self)
        (hus u List.mem_cons_self) (mayEnd_behind hsep hrest ts) (mayEnd_behind hsep hrest' us) h
      -- either both lists end here, or both go on behind a separator
      cases ts with
      | nil =>
        cases us with
        | nil => exact ⟨rfl, hmore⟩
        | cons u us => exact absurd hmore (closed_ne_behind hsep hrest u us rest')
      | cons t' ts =>
        cases us with
        | nil => exact absurd hmore.symm (closed_ne_behind hsep hrest' t' ts rest)
        | cons u us =>
          obtain ⟨hall, hend⟩ := textAll_append_inj (t' :: ts) (u :: us)
            (fun t ht => hts t (List.mem_cons_of_mem _ ht))
            (fun u hu => hus u (List.mem_cons_of_mem _ hu)) sep hsep hrest hrest'
            (List.cons.inj hmore).2
          exact ⟨by rw [hall], hend⟩

end

/-- Trees on lines of their own are read in one way. -/
theorem lines_inj {ts us : List SExpr} (hts : ∀ t ∈ ts, t.Readable) (hus : ∀ u ∈ us, u.Readable)
    (h : ['\n'].intercalate (textAll ts) = ['\n'].intercalate (textAll us)) : ts = us := by
  have hclosed : Closed [] := by simp [Closed]
  have h' := congrArg (· ++ []) h
  exact (textAll_append_inj ts us hts hus '\n' (by decide) hclosed hclosed h').1

end SExpr

end Lox

import Lox.Segment
import Lox.Diagnostic

/-!
# Token streams

The tokens of a source in order, the token that marks its end, and the lexical
faults found on the way. A fault is reported and passed over, so one pass finds
all of them. Lines count from one; a token stands on the line where it ends and a
fault on the line where it starts.
-/
namespace Lox

/-- What can be wrong with the characters of a source, and on which line. -/
inductive LexicalFault where
  | unexpected (line : Nat) (c : Char)
  | unterminated (line : Nat)
deriving DecidableEq, Repr

/-- The report of a lexical fault. -/
def LexicalFault.diagnostic : LexicalFault → Diagnostic
  | unexpected line c => .static line ("Unexpected character: '" ++ c.toString ++ "'.") none
  | unterminated line => .static line "Unterminated string." none

/-- The result of reading a source as tokens; `body` stops before the `close` token. -/
structure TokenStream where
  body : List Token
  close : Token
  faults : List LexicalFault
deriving DecidableEq, Repr

namespace TokenStream

/-- The stream of a division into segments, the first of which starts on `line`. -/
def ofSegments (line : Nat) : List Segment → TokenStream
  | [] => ⟨[], ⟨.eof, "", none, line⟩, []⟩
  | segment :: rest =>
    let after := line + segment.newlines
    let stream := ofSegments after rest
    match segment with
    | .token kind text literal =>
      { stream with body := ⟨kind, String.ofList text, literal, after⟩ :: stream.body }
    | .stray c => { stream with faults := .unexpected line c :: stream.faults }
    | .unclosed _ => { stream with faults := .unterminated line :: stream.faults }
    | .blank _ | .comment _ => stream

/-- Reads a source text. -/
def ofSource (source : String) : TokenStream := ofSegments 1 (Segment.split source.toList)

/-- All tokens, the closing one included. -/
def tokens (stream : TokenStream) : List Token := stream.body ++ [stream.close]

/-- The reports of the faults, in source order. -/
def reports (stream : TokenStream) : List Diagnostic := stream.faults.map LexicalFault.diagnostic

theorem close_kind_ofSegments (line : Nat) (segments : List Segment) :
    (ofSegments line segments).close.kind = .eof := by
  induction segments generalizing line with
  | nil => rfl
  | cons segment rest ih => cases segment <;> exact ih _

end TokenStream

end Lox

import Lox.Text.Digit
import Lox.Text.Quoted

/-!
# Command line options

Words of the command line are switches or operands. A switch may be shortened as
long as it stays unique, and one-letter switches may be joined. The first run of
operands names the script; operands after it are not recognised. Everything behind
a word `--` is an operand.
-/
namespace Lox

/-- The switches of the command line. -/
inductive Switch where
  | help | verbose | showTree
deriving DecidableEq, Repr

namespace Switch

/-- The spellings of the switches, in the order in which they are listed. -/
def spellings : List (String × Switch) :=
  [("-h", help), ("--help", help), ("-v", verbose), ("--print-ast", showTree)]

/-- The switch with exactly this spelling. -/
def ofSpelling? (spelling : List Char) : Option Switch :=
  spellings.lookup (String.ofList spelling)

/-- How a message refers to a switch. -/
def title : Switch → String
  | help => "-h/--help"
  | verbose => "-v"
  | showTree => "--print-ast"

end Switch

/-- What can be wrong with the command line. -/
inductive UsageError where
  | ambiguous (word : String) (spellings : List String)
  /-- Text is attached to a switch that takes none. -/
  | attachedText (switch : Switch) (text : String)
  | unrecognized (words : List String)
deriving DecidableEq, Repr

/-- The message of a usage error. -/
def UsageError.message : UsageError → String
  | ambiguous word spellings =>
    "ambiguous option: " ++ word ++ " could match " ++ ", ".intercalate spellings
  | attachedText switch text =>
    "argument " ++ switch.title ++ ": ignored explicit argument " ++ Text.quoted text
  | unrecognized words => "unrecognized arguments: " ++ " ".intercalate words

/-- What a word of the command line is. -/
inductive Word where
  | operand
  | unknown
  /-- A switch by a full or shortened name, with the text attached to it by an equals sign. -/
  | named (switch : Switch) (text : Option (List Char))
  /-- A switch of one letter, with the text attached to it. -/
  | letter (switch : Switch) (text : Option (List Char))
deriving DecidableEq, Repr

namespace Word

/-- A minus sign with digits, possibly with a point before the last of them. A line feed at the
end does not count. -/
def isNegative : List Char → Bool
  | '-' :: cs =>
    let cs := if cs.getLast? = some '\n' then cs.dropLast else cs
    match cs.dropWhile Text.isDecimal with
    | [] => !cs.isEmpty
    | '.' :: part => !part.isEmpty && part.all Text.isDecimal
    | _ => false
  | _ => false

/-- The text before the first equals sign, and the text behind it if there is one. -/
def splitEquals (word : List Char) : List Char × Option (List Char) :=
  match word.dropWhile (· != '=') with
  | [] => (word, none)
  | _ :: text => (word.takeWhile (· != '='), some text)

/-- A word that starts with a dash and no switch. -/
def unspelled (word : List Char) : Word :=
  if isNegative word || word.contains ' ' then operand else unknown

/-- A word that starts with two dashes and is no full spelling: the spellings it may be short
for. -/
def shortened (word : List Char) : Except UsageError Word :=
  let (name, text) := splitEquals word
  match Switch.spellings.filter fun (spelling, _) => name.isPrefixOf spelling.toList with
  | [] => .ok (unspelled word)
  | [(_, found)] => .ok (named found text)
  | candidates => .error (.ambiguous (String.ofList word) (candidates.map Prod.fst))

/-- What a word before `--` is. An equals sign right behind a switch is not part of the text that
is attached to it. -/
def classify (word : List Char) : Except UsageError Word :=
  match word with
  | ['-', c] => .ok (((Switch.ofSpelling? ['-', c]).map (letter · none)).getD (unspelled word))
  | '-' :: '-' :: _ => shortened word
  | '-' :: c :: rest =>
    match Switch.ofSpelling? ['-', c] with
    | none => .ok (unspelled word)
    | some found => .ok (letter found (some (if rest.head? = some '=' then rest.tail else rest)))
  | _ => .ok operand

/-- The switches of a word that starts with a one-letter switch and goes on with further letters.
The first letter that is no switch spoils the rest of the word. -/
def letters (switch : Switch) : List Char → Except UsageError (List Switch)
  | [] => .ok [switch]
  | c :: rest =>
    match Switch.ofSpelling? ['-', c] with
    | none => .error (.attachedText switch (String.ofList (c :: rest)))
    | some next => (letters next rest).map (switch :: ·)

/-- The switches that a word stands for. Text may only be attached to a switch of one letter, and
there it must not be empty. -/
def switches : Word → Except UsageError (List Switch)
  | operand | unknown => .ok []
  | named found none | letter found none => .ok [found]
  | named found (some text) => .error (.attachedText found (String.ofList text))
  | letter found (some []) => .error (.attachedText found "")
  | letter found (some text) => letters found text

end Word

/-- What the command line asks for. -/
structure Options where
  verbosity : Nat
  showTree : Bool
  scripts : List String
deriving DecidableEq, Repr

/-- Why the command line starts nothing. -/
inductive Refusal where
  | help
  | usage (error : UsageError)
deriving DecidableEq, Repr

namespace Options

/-- Whether the run of operands that names the script is still to come, is being read, or is
over. -/
inductive Stage where
  | before | within | behind
deriving DecidableEq, Repr

/-- What has been read of the command line. -/
structure Progress where
  options : Options
  stage : Stage
  unrecognized : List String
deriving DecidableEq, Repr

namespace Progress

/-- Nothing read. -/
def start : Progress := ⟨⟨0, false, []⟩, .before, []⟩

/-- Reads operands that stand together. -/
def operands (progress : Progress) (words left : List String) : Progress :=
  match progress.stage with
  | .before | .within =>
    { progress with
      options := { progress.options with scripts := progress.options.scripts ++ words }
      stage := .within }
  | .behind => { progress with unrecognized := progress.unrecognized ++ left }

/-- Does what a switch says. -/
def apply (progress : Progress) : Switch → Except Refusal Progress
  | .help => .error .help
  | .verbose =>
    .ok { progress with
      options := { progress.options with verbosity := progress.options.verbosity + 1 } }
  | .showTree => .ok { progress with options := { progress.options with showTree := true } }

/-- Reads one word. A switch ends the operands that come before it. -/
def read (progress : Progress) (text : String) (word : Word) : Except Refusal Progress := do
  if word = .operand then return progress.operands [text] [text]
  let left := if word = .unknown then [text] else []
  let progress := { progress with
    stage := if progress.stage = .before then .before else .behind
    unrecognized := progress.unrecognized ++ left }
  (← word.switches.mapError .usage).foldlM apply progress

end Progress

/-- What the words before `--` are. -/
def classifyAll (words : List String) : Except UsageError (List (String × Word)) :=
  words.mapM fun text => (Word.classify text.toList).map fun word => (text, word)

/-- Reads a command line. Words that cannot be classified are refused first, and words that are
not recognised last. -/
def parse (argv : List String) : Except Refusal Options := do
  let rest := argv.dropWhile (· != "--")
  let words ← (classifyAll (argv.takeWhile (· != "--"))).mapError .usage
  let progress ← words.foldlM (fun progress (text, word) => progress.read text word)
    Progress.start
  let progress := if rest.isEmpty then progress else progress.operands rest.tail rest
  if progress.unrecognized.isEmpty then return progress.options
  else throw (.usage (.unrecognized progress.unrecognized))

end Options

end Lox

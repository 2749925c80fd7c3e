import Lox.Token
import Lox.Segment
import Lox.Diagnostic
import Lox.TokenStream
import Lox.Binary64
import Lox.Decimal
import Lox.Text.Blank
import Lox.Text.Digit
import Lox.Text.Unassigned
import Lox.Text.Quoted
import Lox.Value
import Lox.Fault
import Lox.Operator
import Lox.Syntax
import Lox.Syntax.Printer
import Lox.Rule
import Lox.Rule.Expression
import Lox.Rule.Statement
import Lox.Environment
import Lox.Trace
import Lox.Machine
import Lox.Execution
import Lox.Output
import Lox.Session
import Lox.Prompt
import Lox.Options
import Lox.Directory
import Lox.Command
import Lox.Main
import Lox.Proofs.Grammar
import Lox.Proofs.CleanReading
import Lox.Proofs.ExpressionReading
import Lox.Proofs.Reporting
import Lox.Proofs.StatementSoundness
import Lox.Proofs.StatementCompleteness
import Lox.Proofs.Actions
import Lox.Proofs.Relocation
import Lox.Proofs.JoinedText
import Lox.Proofs.JoinedRuns
import Lox.Proofs.NameSets
import Lox.Proofs.Reachability
import Lox.Proofs.ResolvedProgram
import Lox.Proofs.ReachedFaults
import Lox.Proofs.StaticResolution
import Lox.Proofs.SettledRuns
import Lox.Proofs.ScopeDiscipline
import Lox.Proofs.RuleParts
import Lox.Proofs.Progress
import Lox.Proofs.EnclosedJumps
import Lox.Proofs.LongerReading
import Lox.Proofs.IndependentFaults
import Lox.Proofs.IndexedReading
import Lox.Proofs.SafeReading
import Lox.Proofs.FollowedReading
import Lox.Proofs.Lexeme
import Lox.Proofs.LongestMatch
import Lox.Proofs.Verdicts
import Lox.Proofs.Verbosity
import Lox.Proofs.Productions
import Lox.Proofs.PredictiveReading
import Lox.Proofs.DecidedProductions
import Lox.Proofs.FirstImpossibleToken
import Lox.Proofs.Conversation
import Lox.Proofs.LikePrograms
import Lox.Proofs.PairedRuns
import Lox.Proofs.LoopSteps
import Lox.Proofs.TwinReading
import Lox.Proofs.Spellings
import Lox.Proofs.NumberText
import Lox.Proofs.PrefixNotation
import Lox.Proofs.WrittenPrograms
import Lox.Proofs.UnambiguousPrinting
import Lox.Proofs.ErrorStatements
import Lox.Proofs.Rescanning
import Lox.Proofs.WriteHistory
import Lox.Proofs.ScopeBrackets
import Lox.Proofs.Resumption
import Lox.Proofs.NumbersReadBack

import LineBasic.Text.Blank
import LineBasic.Text.Lines
import LineBasic.Text.Digit
import LineBasic.Text.Word
import LineBasic.Text.Upper
import LineBasic.Text.Quoted
import LineBasic.Number.Numeral
import LineBasic.Number.Format
import LineBasic.Environment
import LineBasic.Generator
import LineBasic.Builtin
import LineBasic.Expr.Token
import LineBasic.Expr.Evaluate
import LineBasic.Condition
import LineBasic.PrintList
import LineBasic.Program
import LineBasic.Command.Basic
import LineBasic.Interpreter
import LineBasic.Session
import LineBasic.CommandLine
import LineBasic.Main
import LineBasic.Proofs.Effects
import LineBasic.Proofs.Operations
import LineBasic.Proofs.History
import LineBasic.Proofs.LineNumbers
import LineBasic.Proofs.Invariant
import LineBasic.Proofs.Containment
import LineBasic.Proofs.Draws
import LineBasic.Proofs.Clauses
import LineBasic.Proofs.Abandonment
import LineBasic.Proofs.Subroutines
import LineBasic.Proofs.Characters
import LineBasic.Proofs.Grammar
import LineBasic.Proofs.Lexemes
import LineBasic.Proofs.Derivations
import LineBasic.Proofs.Printing
import LineBasic.Proofs.Pieces
import LineBasic.Proofs.Rewriting
import LineBasic.Proofs.Parentheses
import LineBasic.Proofs.Conditions
import LineBasic.Proofs.Doubles
import LineBasic.Proofs.Rounding
import LineBasic.Proofs.Decimals
import LineBasic.Proofs.Literals
import LineBasic.Proofs.Skeletons
import LineBasic.Proofs.Steps
import LineBasic.Proofs.Termination
import LineBasic.Proofs.Cancellation
import LineBasic.Proofs.Drivers
import LineBasic.Proofs.Sessions
import LineBasic.Proofs.Notes
import LineBasic.Proofs.Detail
import LineBasic.Proofs.Trimming
import LineBasic.Proofs.Loading
import LineBasic.Proofs.Store
import LineBasic.Proofs.Capitals
import LineBasic.Proofs.CapitalShapes
import LineBasic.Proofs.CapitalExpressions
import LineBasic.Proofs.CapitalConditions
import LineBasic.Proofs.CapitalCommands
import LineBasic.Proofs.LetterCase
import LineBasic.Proofs.Listings
import LineBasic.Proofs.UpperCase
import LineBasic.Proofs.Wordings
import LineBasic.Proofs.Assignments
import LineBasic.Proofs.Loops
import LineBasic.Proofs.Shortcuts
import LineBasic.Proofs.PrintedLiterals
import LineBasic.Proofs.Executions
import LineBasic.Proofs.Replacement
import LineBasic.Proofs.NestedBranches
import LineBasic.Proofs.SplitConditions
import LineBasic.Proofs.Substitution
import LineBasic.Proofs.TokenSubstitution
import LineBasic.Proofs.Enclosures
import LineBasic.Proofs.Failures
import LineBasic.Proofs.Jumps
import LineBasic.Proofs.ImplicitAssignments
import LineBasic.Proofs.PrintedNumbers
import LineBasic.Proofs.Answers
import LineBasic.Proofs.Paths
import LineBasic.Proofs.Bindings
import LineBasic.Proofs.LineEnds
import LineBasic.Proofs.Occurrences
import LineBasic.Proofs.RandomNumbers
import LineBasic.Proofs.DrawCounts
import LineBasic.Proofs.EqualsSigns
import LineBasic.Proofs.Separators

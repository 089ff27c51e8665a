import BlockScript.Main
import BlockScript.Proofs.Command.Prompt
import BlockScript.Proofs.Descent.Boundary
import BlockScript.Proofs.Descent.Errors
import BlockScript.Proofs.Descent.Expression
import BlockScript.Proofs.Descent.Movement
import BlockScript.Proofs.Descent.Parser
import BlockScript.Proofs.Descent.Recovery
import BlockScript.Proofs.Descent.Statement
import BlockScript.Proofs.Descent.Termination
import BlockScript.Proofs.Grammar.Acceptance
import BlockScript.Proofs.Grammar.BlamedOnce
import BlockScript.Proofs.Grammar.Closing
import BlockScript.Proofs.Grammar.Completeness
import BlockScript.Proofs.Grammar.Completion
import BlockScript.Proofs.Grammar.Concatenation
import BlockScript.Proofs.Grammar.Delimited
import BlockScript.Proofs.Grammar.Derivation
import BlockScript.Proofs.Grammar.Diagnostics
import BlockScript.Proofs.Grammar.Errors
import BlockScript.Proofs.Grammar.Leaves
import BlockScript.Proofs.Grammar.Moves
import BlockScript.Proofs.Grammar.Order
import BlockScript.Proofs.Grammar.Parts
import BlockScript.Proofs.Grammar.Recovery
import BlockScript.Proofs.Grammar.Relabel
import BlockScript.Proofs.Grammar.Soundness
import BlockScript.Proofs.Grammar.Surroundings
import BlockScript.Proofs.Grammar.Unambiguous
import BlockScript.Proofs.Grammar.Viable
import BlockScript.Proofs.Number.Overflow
import BlockScript.Proofs.Number.Parse
import BlockScript.Proofs.Number.Pattern
import BlockScript.Proofs.Number.RoundTrip
import BlockScript.Proofs.Printing.Canonical
import BlockScript.Proofs.Printing.Numeral
import BlockScript.Proofs.Printing.Prefix
import BlockScript.Proofs.Printing.RoundTrip
import BlockScript.Proofs.Printing.Text
import BlockScript.Proofs.Printing.Tokens
import BlockScript.Proofs.Run.Blame
import BlockScript.Proofs.Run.Core
import BlockScript.Proofs.Run.Echo
import BlockScript.Proofs.Run.Footprint
import BlockScript.Proofs.Run.Frame
import BlockScript.Proofs.Run.FreeNames
import BlockScript.Proofs.Run.Handles
import BlockScript.Proofs.Run.Host
import BlockScript.Proofs.Run.Joined
import BlockScript.Proofs.Run.Overwriting
import BlockScript.Proofs.Run.Relabel
import BlockScript.Proofs.Run.Renaming
import BlockScript.Proofs.Run.Rules
import BlockScript.Proofs.Run.ShortCircuit
import BlockScript.Proofs.Run.Truncation
import BlockScript.Proofs.Scope.Links
import BlockScript.Proofs.Scope.Renaming
import BlockScript.Proofs.Scope.Update
import BlockScript.Proofs.Scope.View
import BlockScript.Proofs.Source.Blanked
import BlockScript.Proofs.Source.Joined
import BlockScript.Proofs.Source.Layout
import BlockScript.Proofs.Source.Lexeme
import BlockScript.Proofs.Source.Line
import BlockScript.Proofs.Source.Munch
import BlockScript.Proofs.Source.Spelling
import BlockScript.Proofs.Syntax.Equality
import BlockScript.Proofs.Syntax.Relabel
import BlockScript.Proofs.Text.Lines
import BlockScript.Syntax.Equality

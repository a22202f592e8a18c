import Contractum.Term.Alpha
import Contractum.Term.Binder
import Contractum.Live
import Contractum.Main
import Contractum.Text.Styled
import Contractum.Proofs.Names.Fresh
import Contractum.Proofs.Nameless.Basic
import Contractum.Proofs.Nameless.Form
import Contractum.Proofs.Nameless.Alpha
import Contractum.Proofs.Nameless.Substitution
import Contractum.Proofs.Nameless.Clashes
import Contractum.Proofs.Reduction.Beta
import Contractum.Proofs.Reduction.Listing
import Contractum.Proofs.Reduction.Steps
import Contractum.Proofs.Reduction.Arithmetic
import Contractum.Proofs.Grammar.Derivation
import Contractum.Proofs.Grammar.Numbering
import Contractum.Proofs.Grammar.Soundness
import Contractum.Proofs.Grammar.Rules
import Contractum.Proofs.Grammar.Completeness
import Contractum.Proofs.Grammar.Items
import Contractum.Proofs.Grammar.Acceptance
import Contractum.Proofs.Grammar.Places
import Contractum.Proofs.Grammar.Lookahead
import Contractum.Proofs.Grammar.Refusals
import Contractum.Proofs.Report.Readings
import Contractum.Proofs.Grammar.FirstError
import Contractum.Proofs.Spelling.Lexical
import Contractum.Proofs.Spelling.Spells
import Contractum.Proofs.Spelling.Digits
import Contractum.Proofs.Spelling.RoundTrip
import Contractum.Proofs.Scoping.Resolved
import Contractum.Proofs.Scoping.Steps
import Contractum.Proofs.Spelling.LexicalSteps
import Contractum.Proofs.Spelling.Limits
import Contractum.Proofs.Session.Run
import Contractum.Proofs.Session.WellFormed
import Contractum.Proofs.Report.Templates
import Contractum.Proofs.Report.Messages
import Contractum.Proofs.Report.Printing
import Contractum.Proofs.Session.Outcomes
import Contractum.Proofs.Session.Chain
import Contractum.Proofs.Session.Atomicity
import Contractum.Proofs.Session.Showing
import Contractum.Proofs.Shell.Reporting
import Contractum.Proofs.Shell.Commands
import Contractum.Proofs.Shell.Lines
import Contractum.Proofs.Spelling.Words
import Contractum.Proofs.Spelling.Tiling
import Contractum.Proofs.Spelling.Margins
import Contractum.Proofs.Shell.Terms
import Contractum.Proofs.Session.Steps
import Contractum.Proofs.Command.OneShot
import Contractum.Proofs.Shell.StepLines
import Contractum.Proofs.Command.Agreement
import Contractum.Proofs.Reduction.Independence
import Contractum.Proofs.Reduction.LiveSteps
import Contractum.Proofs.Scoping.Binders
import Contractum.Proofs.Spelling.Parentheses
import Contractum.Proofs.Scoping.Freedom
import Contractum.Proofs.Spelling.Outlines
import Contractum.Proofs.Report.Spending
import Contractum.Proofs.Report.Guarding
import Contractum.Proofs.Names.Candidates
import Contractum.Proofs.Nameless.Conversion
import Contractum.Proofs.Spelling.Sequences
import Contractum.Proofs.Report.Pointing

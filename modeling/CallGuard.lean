import CallGuard.Command.LogFormat
import CallGuard.Main
import CallGuard.Proofs.Condition.Entailment
import CallGuard.Proofs.Condition.Written
import CallGuard.Proofs.Guard.Scope
import CallGuard.Token.Scanner
import CallGuard.Proofs.Fix.Conditions
import CallGuard.Proofs.Fix.Covering
import CallGuard.Proofs.Fix.Facts
import CallGuard.Proofs.Fix.Guards
import CallGuard.Proofs.Fix.Reported
import CallGuard.Proofs.Fix.Splicing
import CallGuard.Proofs.Rule.Evaluation
import CallGuard.Proofs.Rule.Parentheses
import CallGuard.Proofs.Expression.RoundTrip
import CallGuard.Proofs.Fix.Tokens
import CallGuard.Proofs.Parser.Spans
import CallGuard.Proofs.Parser.TokensOnly
import CallGuard.Proofs.Rule.Declaration
import CallGuard.Proofs.Rule.Independence
import CallGuard.Proofs.Token.Tiling
import CallGuard.Proofs.Suspension.After
import CallGuard.Proofs.Suspension.Scope
import CallGuard.Proofs.Suspension.Words
import CallGuard.Proofs.Type.Arguments
import CallGuard.Proofs.Type.Scoping
import CallGuard.Proofs.Parser.Speculation
import CallGuard.Proofs.Parser.Holes
import CallGuard.Proofs.Parser.InOperator
import CallGuard.Proofs.Parser.ArrowBranch
import CallGuard.Proofs.Guard.Wrapper
import CallGuard.Proofs.Token.Session
import CallGuard.Proofs.Token.Spacing
import CallGuard.Proofs.Text.Lines
import CallGuard.Proofs.Rule.Catalogue
import CallGuard.Proofs.Token.Substitution
import CallGuard.Proofs.Text.Places
import CallGuard.Proofs.Rule.Messages

import TypeDeduction.Arithmetic
import TypeDeduction.Brackets
import TypeDeduction.Conditional
import TypeDeduction.Depth
import TypeDeduction.Expression
import TypeDeduction.Failure
import TypeDeduction.Judgment
import TypeDeduction.Lambda
import TypeDeduction.Proof
import TypeDeduction.Proof.Draft
import TypeDeduction.Proof.Inspection
import TypeDeduction.Proof.Markup
import TypeDeduction.Proof.Rule
import TypeDeduction.Proofs.Agreement
import TypeDeduction.Proofs.Arithmetic.BranchVerdicts
import TypeDeduction.Proofs.Arithmetic.Derivation
import TypeDeduction.Proofs.Arithmetic.FlatForms
import TypeDeduction.Proofs.Arithmetic.FullTrees
import TypeDeduction.Proofs.Arithmetic.Inference
import TypeDeduction.Proofs.Arithmetic.Typing
import TypeDeduction.Proofs.Brackets
import TypeDeduction.Proofs.Clauses
import TypeDeduction.Proofs.DepthLimit
import TypeDeduction.Proofs.Domains
import TypeDeduction.Proofs.Failures
import TypeDeduction.Proofs.Lambda.Abstractions
import TypeDeduction.Proofs.Lambda.Bracketing
import TypeDeduction.Proofs.Lambda.Derivation
import TypeDeduction.Proofs.Lambda.ExactExpressions
import TypeDeduction.Proofs.Lambda.Inference
import TypeDeduction.Proofs.Lambda.Scoping
import TypeDeduction.Proofs.Lambda.Soundness
import TypeDeduction.Proofs.Lambda.Spine
import TypeDeduction.Proofs.Lambda.Typing
import TypeDeduction.Proofs.LevelBounds
import TypeDeduction.Proofs.Nodes
import TypeDeduction.Proofs.Reading
import TypeDeduction.Proofs.Reports
import TypeDeduction.Proofs.Rules
import TypeDeduction.Proofs.Scope
import TypeDeduction.Proofs.Steps
import TypeDeduction.Report
import TypeDeduction.Scalar
import TypeDeduction.Scope
import TypeDeduction.Session
import TypeDeduction.Settings
import TypeDeduction.Settings.Numeral
import TypeDeduction.Settings.Sources
import TypeDeduction.Signature
import TypeDeduction.Spelling
import TypeDeduction.Text.Blank
import TypeDeduction.Text.Printable
import TypeDeduction.Text.Quoted
import TypeDeduction.Token
import TypeDeduction.Trace
import TypeDeduction.Typing
import TypeDeduction.Proofs.Presentation
import TypeDeduction.Proofs.Splitting
import TypeDeduction.Proofs.PossibleTypes
import TypeDeduction.Proofs.Arithmetic.Accounting
import TypeDeduction.Proofs.OuterBrackets
import TypeDeduction.Proofs.Rendering
import TypeDeduction.Proofs.Decoration
import TypeDeduction.Proofs.Braces
import TypeDeduction.Proofs.BindingSessions
import TypeDeduction.Proofs.Arithmetic.EventOrder
import TypeDeduction.Proofs.Unmatched
import TypeDeduction.Proofs.Partners
import TypeDeduction.Proofs.RememberedSettings

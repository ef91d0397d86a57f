import FrameLang.Analysis
import FrameLang.Analysis.Evaluation
import FrameLang.Analysis.Layout
import FrameLang.Branch.Cache
import FrameLang.Branch.Entrance
import FrameLang.Branch.Walk
import FrameLang.Diagnostic
import FrameLang.Diagnostic.Encoding
import FrameLang.Expr
import FrameLang.Json
import FrameLang.Json.Fields
import FrameLang.Json.Numeral
import FrameLang.Json.Reader
import FrameLang.Kinds
import FrameLang.Kinds.Flags
import FrameLang.Options
import FrameLang.Report
import FrameLang.Scope.Demand
import FrameLang.Scope.Lookup
import FrameLang.Scope.Session
import FrameLang.Scope.Tree
import FrameLang.Search.Basic
import FrameLang.Search.Describe
import FrameLang.Search.Frame
import FrameLang.Search.Symbol
import FrameLang.Search.Value
import FrameLang.Search.World
import FrameLang.Span
import FrameLang.Table
import FrameLang.Text.Blank
import FrameLang.Text.Decimal
import FrameLang.Text.Hidden
import FrameLang.Text.Letters
import FrameLang.Text.Quoted
import FrameLang.Text.Split
import FrameLang.Proofs.Json.RoundTrip
import FrameLang.Proofs.Diagnostic.RoundTrip
import FrameLang.Proofs.Diagnostic.Reports
import FrameLang.Proofs.Search.Contents
import FrameLang.Proofs.Search.Reference
import FrameLang.Proofs.Search.Invariant
import FrameLang.Proofs.Search.Steps
import FrameLang.Proofs.Search.Attempts
import FrameLang.Proofs.Search.Deliveries
import FrameLang.Proofs.Search.Runs
import FrameLang.Proofs.Search.Moments
import FrameLang.Proofs.Search.Subscriptions
import FrameLang.Proofs.Search.Commitments
import FrameLang.Proofs.Search.Modes
import FrameLang.Proofs.Search.Trails
import FrameLang.Proofs.Search.Traces
import FrameLang.Proofs.Scope.Formed
import FrameLang.Proofs.Scope.Evolution
import FrameLang.Proofs.Scope.Lookups
import FrameLang.Proofs.Analysis.Evaluation
import FrameLang.Proofs.Analysis.Survey
import FrameLang.Proofs.Analysis.Exploration
import FrameLang.Proofs.Analysis.Coverage
import FrameLang.Proofs.Branch.Entrance
import FrameLang.Proofs.Branch.Caches
import FrameLang.Proofs.Scope.Bearers
import FrameLang.Proofs.Scope.Invariance
import FrameLang.Proofs.Analysis.Weighing
import FrameLang.Proofs.Analysis.Steady
import FrameLang.Proofs.Analysis.Demands
import FrameLang.Proofs.Analysis.Requirements
import FrameLang.Proofs.Analysis.Surroundings
import FrameLang.Proofs.Analysis.Uniqueness
import FrameLang.Proofs.Branch.Choices
import FrameLang.Proofs.Branch.Visits
import FrameLang.Proofs.Analysis.Resolution
import FrameLang.Proofs.Analysis.Ledger
import FrameLang.Proofs.Analysis.Order
import FrameLang.Proofs.Analysis.Repetition
import FrameLang.Proofs.Branch.Refusals
import FrameLang.Proofs.Scope.Steps
import FrameLang.Proofs.Scope.Narrowing
import FrameLang.Proofs.Scope.Ancestry
import FrameLang.Proofs.Analysis.Narrowing
import FrameLang.Proofs.Analysis.Nesting
import FrameLang.Proofs.Analysis.Termination
import FrameLang.Proofs.Analysis.Sides
import FrameLang.Proofs.Analysis.Echoes
import FrameLang.Proofs.Analysis.Division
import FrameLang.Proofs.Scope.Interior
import FrameLang.Proofs.Scope.Couples
import FrameLang.Proofs.Scope.Isolation
import FrameLang.Proofs.Analysis.Isolation
import FrameLang.Proofs.Analysis.Scoping
import FrameLang.Proofs.Analysis.Meanings
import FrameLang.Proofs.Analysis.Conflicts
import FrameLang.Proofs.Analysis.Answers
import FrameLang.Proofs.Analysis.Bindings
import FrameLang.Proofs.Analysis.Honours
import FrameLang.Proofs.Analysis.Bonds
import FrameLang.Proofs.Analysis.Agreement
import FrameLang.Proofs.Analysis.Completeness
import FrameLang.Proofs.Analysis.Undisturbed
import FrameLang.Proofs.Scope.Akin
import FrameLang.Proofs.Scope.Delegation
import FrameLang.Proofs.Analysis.Delegation
import FrameLang.Proofs.Scope.Commutation
import FrameLang.Proofs.Branch.Violations
import FrameLang.Proofs.Branch.Transcripts
import FrameLang.Proofs.Branch.Warnings
import FrameLang.Proofs.Search.Dealings
import FrameLang.Proofs.Search.Cells
import FrameLang.Proofs.Search.Assignments

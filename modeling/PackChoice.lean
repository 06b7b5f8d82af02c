import PackChoice.Text.Order
import PackChoice.Text.Blank
import PackChoice.Sorted
import PackChoice.NameSet
import PackChoice.NameMap
import PackChoice.Text.Printable
import PackChoice.Text.Quoted
import PackChoice.Decimal.Shortest
import PackChoice.Json.Number
import PackChoice.Json.Basic
import PackChoice.Json.Token
import PackChoice.Json.Reader
import PackChoice.Json.Printer
import PackChoice.Connective
import PackChoice.Document.ShapeError
import PackChoice.Error
import PackChoice.Expression
import PackChoice.Condition
import PackChoice.Variables
import PackChoice.Walk
import PackChoice.Pack
import PackChoice.Catalog
import PackChoice.Catalog.Dependencies
import PackChoice.Resolution
import PackChoice.Sift
import PackChoice.Options
import PackChoice.Rules
import PackChoice.Rules.Evaluation
import PackChoice.Rules.Validation
import PackChoice.InstallGroup
import PackChoice.Document.Structure
import PackChoice.Document.Conditions
import PackChoice.Document.Packs
import PackChoice.Document.Settings
import PackChoice.Definition
import PackChoice.Document.Schema
import PackChoice.Document.Text
import PackChoice.Context
import PackChoice.Session
import PackChoice.Record
import PackChoice.Record.Reader
import PackChoice.CommandLine.Arguments
import PackChoice.CommandLine
import PackChoice.Main
import PackChoice.Proofs.Walk.Coloured
import PackChoice.Proofs.Catalog.Closure
import PackChoice.Proofs.Catalog.Traversal
import PackChoice.Proofs.Catalog.Dependents
import PackChoice.Proofs.Catalog.Building
import PackChoice.Proofs.Resolution
import PackChoice.Proofs.Rules.Registration
import PackChoice.Proofs.Rules.Validated
import PackChoice.Proofs.Rules.Evaluable
import PackChoice.Proofs.Rules.Expansion
import PackChoice.Proofs.Rules.Derivation
import PackChoice.Proofs.Rules.FirstProblem
import PackChoice.Proofs.Loading
import PackChoice.Proofs.InstallGroups
import PackChoice.Proofs.InstallGroups.Partition
import PackChoice.Proofs.Session.Operations
import PackChoice.Proofs.Session.Editing
import PackChoice.Proofs.Session.Run
import PackChoice.Proofs.Session.Candidates
import PackChoice.Proofs.Session.Errors
import PackChoice.Proofs.Session.Assignment
import PackChoice.Proofs.Session.Frozen
import PackChoice.Proofs.Session.GroupBound
import PackChoice.Proofs.Session.Reclosed
import PackChoice.Proofs.Session.Selection
import PackChoice.Proofs.Session.Reselection
import PackChoice.Proofs.Session.Anchored
import PackChoice.Proofs.Session.Locked
import PackChoice.Proofs.Session.Exclusion
import PackChoice.Proofs.Session.SelfContained
import PackChoice.Proofs.Session.Coherent
import PackChoice.Proofs.Session.Toggle
import PackChoice.Proofs.Session.Settled
import PackChoice.Proofs.Session.Refused
import PackChoice.Proofs.Session.Unaffected
import PackChoice.Proofs.Session.GroupChoice
import PackChoice.Proofs.Session.Verdicts
import PackChoice.Proofs.Session.Steady
import PackChoice.Proofs.Session.Repeated
import PackChoice.Proofs.Resolution.Refusals
import PackChoice.Proofs.Session.Obstacle
import PackChoice.Proofs.Expression
import PackChoice.Proofs.Expression.Grammar
import PackChoice.Proofs.Json.Written
import PackChoice.Proofs.Document.Structure
import PackChoice.Proofs.Document.Conditions
import PackChoice.Proofs.Document.Packs
import PackChoice.Proofs.Document.Definitions
import PackChoice.Proofs.Document.Admitted
import PackChoice.Proofs.CommandLine.Steps
import PackChoice.Proofs.CommandLine.Listing

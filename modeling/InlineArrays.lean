import InlineArrays.Access
import InlineArrays.Code.Emission
import InlineArrays.Code.Instr
import InlineArrays.Code.OfAccess
import InlineArrays.Code.OfExpr
import InlineArrays.Code.OfMethod
import InlineArrays.Code.Operand
import InlineArrays.Code.Routine
import InlineArrays.CommandLine
import InlineArrays.Compilation
import InlineArrays.Compilation.Check
import InlineArrays.Compilation.Report
import InlineArrays.Data
import InlineArrays.Diagnostic.Basic
import InlineArrays.Diagnostic.Report
import InlineArrays.Expr.Basic
import InlineArrays.Expr.Place
import InlineArrays.Machine.Default
import InlineArrays.Machine.Error
import InlineArrays.Machine.Execute
import InlineArrays.Machine.Input
import InlineArrays.Machine.Materialize
import InlineArrays.Machine.Memory
import InlineArrays.Machine.Run
import InlineArrays.Machine.Value
import InlineArrays.Main
import InlineArrays.Member
import InlineArrays.Method.Basic
import InlineArrays.Method.Listing
import InlineArrays.Options
import InlineArrays.Projection
import InlineArrays.Proofs.Access
import InlineArrays.Proofs.Code.Addresses
import InlineArrays.Proofs.Code.DefinedBeforeUse
import InlineArrays.Proofs.Code.Emission
import InlineArrays.Proofs.Code.Helpers
import InlineArrays.Proofs.Code.Misplaced
import InlineArrays.Proofs.Code.Scope
import InlineArrays.Proofs.Code.WellFormed
import InlineArrays.Proofs.Except
import InlineArrays.Proofs.Machine.Calls
import InlineArrays.Proofs.Machine.Definedness
import InlineArrays.Proofs.Machine.Frames
import InlineArrays.Proofs.Machine.Roots
import InlineArrays.Proofs.Machine.Slots
import InlineArrays.Proofs.Machine.Triple
import InlineArrays.Proofs.Machine.Values
import InlineArrays.Proofs.Parts
import InlineArrays.Proofs.Resolution.Circular
import InlineArrays.Proofs.Resolution.RefLocals
import InlineArrays.Proofs.Resolution.PathStorage
import InlineArrays.Proofs.Resolution.Fuel
import InlineArrays.Proofs.Resolution.Structure
import InlineArrays.Proofs.Scenario.Build
import InlineArrays.Proofs.Scenario.Recorded
import InlineArrays.Proofs.Types.Table
import InlineArrays.Proofs.Validation.Accepted
import InlineArrays.Resolution
import InlineArrays.Scenario.Basic
import InlineArrays.Scenario.Decode
import InlineArrays.Scenario.Program
import InlineArrays.SpanKind
import InlineArrays.Storage
import InlineArrays.Text.Blank
import InlineArrays.Text.Columns
import InlineArrays.Text.Glyph
import InlineArrays.Text.Json
import InlineArrays.Text.Line
import InlineArrays.Text.Quoted
import InlineArrays.Text.Runs
import InlineArrays.Toml.Basic
import InlineArrays.Toml.Draft
import InlineArrays.Toml.Parser
import InlineArrays.Toml.Quoted
import InlineArrays.Toml.Scalar
import InlineArrays.Types.Containment
import InlineArrays.Types.Name
import InlineArrays.Types.Table
import InlineArrays.Usage
import InlineArrays.Validation
import InlineArrays.Validation.Assignment
import InlineArrays.Validation.Indexing
import InlineArrays.Validation.RefSafety
import InlineArrays.Proofs.Renaming.Method
import InlineArrays.Proofs.Renaming.Resolution
import InlineArrays.Proofs.Renaming.Access
import InlineArrays.Proofs.Renaming.Validation
import InlineArrays.Proofs.Renaming.Code
import InlineArrays.Proofs.Scenario.Tables
import InlineArrays.Proofs.Renaming.Building
import InlineArrays.Proofs.Renaming.Independence
import InlineArrays.Proofs.Validation.SpanVariables
import InlineArrays.Proofs.Code.Realized
import InlineArrays.Proofs.Elements.Accepted
import InlineArrays.Proofs.Elements.Executed
import InlineArrays.Proofs.Elements.ReadBack
import InlineArrays.Proofs.Machine.Links
import InlineArrays.Proofs.Machine.Discipline
import InlineArrays.Proofs.Machine.Isolation
import InlineArrays.Proofs.Scenario.Compiled
import InlineArrays.Proofs.Machine.HostCalls
import InlineArrays.Proofs.Resolution.Slices
import InlineArrays.Proofs.Validation.Slices
import InlineArrays.Proofs.Types.Proper
import InlineArrays.Proofs.Scenario.Faultless
import InlineArrays.Proofs.Scenario.Anchored
import InlineArrays.Proofs.Validation.Untyped
import InlineArrays.Proofs.Machine.SpanViews
import InlineArrays.Proofs.Machine.Materialized
import InlineArrays.Proofs.Machine.ExactWindows
import InlineArrays.Proofs.Code.Evaluated
import InlineArrays.Proofs.Code.Selected
import InlineArrays.Proofs.Elements.ConstantIndices
import InlineArrays.Proofs.Elements.HeldOperands
import InlineArrays.Proofs.Code.RequiredMembers
import InlineArrays.Proofs.Code.Members
import InlineArrays.Proofs.MemberTables
import InlineArrays.Proofs.Validation.Settled
import InlineArrays.Proofs.Validation.Indices
import InlineArrays.Proofs.Code.ArrayViews
import InlineArrays.Proofs.Code.MutableViews
import InlineArrays.Proofs.Types.Indexed
import InlineArrays.Proofs.Resolution.AccessTypes
import InlineArrays.Proofs.Code.Receivers
import InlineArrays.Proofs.Evaluation.Agreement
import InlineArrays.Proofs.Evaluation.Computed
import InlineArrays.Proofs.Evaluation.Lowered
import InlineArrays.Proofs.Evaluation.Replaced
import InlineArrays.Proofs.Evaluation.Returned
import InlineArrays.Proofs.Machine.StoreLaws
import InlineArrays.Proofs.Machine.History
import InlineArrays.Proofs.Types.Spelling
import InlineArrays.Proofs.Scenario.RecursiveStructs
import InlineArrays.Proofs.Evaluation.NullOrAccess
import InlineArrays.Proofs.Code.UnusedMembers
import InlineArrays.Proofs.Machine.ShownInputs
import InlineArrays.Proofs.Scenario.UsedOnce
import InlineArrays.Proofs.Validation.ReceiverChains
import InlineArrays.Proofs.Machine.ForwardedCalls
import InlineArrays.Proofs.Validation.Order
import InlineArrays.Proofs.Validation.Quoted
import InlineArrays.Proofs.Scenario.VisitedOnce
import InlineArrays.Proofs.Machine.Confined
import InlineArrays.Proofs.Code.Regions
import InlineArrays.Proofs.Machine.Territories
import InlineArrays.Proofs.Machine.ConfinedRuns
import InlineArrays.Proofs.Machine.SealedInputs
import InlineArrays.Proofs.Resolution.SpanLocals
import InlineArrays.Proofs.Code.ExprRegions
import InlineArrays.Proofs.Code.Ranged
import InlineArrays.Proofs.Validation.KeptSpans
import InlineArrays.Proofs.Code.RangedStatements
import InlineArrays.Proofs.Machine.SpanSafety

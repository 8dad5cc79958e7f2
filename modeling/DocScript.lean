import DocScript.CommandLine
import DocScript.Decimal.Binary
import DocScript.Decimal.Positional
import DocScript.Decimal.Shortest
import DocScript.Eval
import DocScript.Fault.Basic
import DocScript.Fault.Detail
import DocScript.FileTree
import DocScript.Json.Basic
import DocScript.Json.Byte
import DocScript.Json.Fault
import DocScript.Json.Numeral
import DocScript.Json.Raw
import DocScript.Json.Reader
import DocScript.Json.StringLiteral
import DocScript.Main
import DocScript.Node.Basic
import DocScript.Node.Malformed
import DocScript.Node.Reader
import DocScript.Operator
import DocScript.Path
import DocScript.Program.Reader
import DocScript.Proofs.AdjacentFrames
import DocScript.Proofs.ArgumentStreams
import DocScript.Proofs.Balance
import DocScript.Proofs.BatchLines
import DocScript.Proofs.CallIsolation
import DocScript.Proofs.CallLimit
import DocScript.Proofs.CallLines
import DocScript.Proofs.ClosedSessions
import DocScript.Proofs.Confinement
import DocScript.Proofs.DocumentFronts
import DocScript.Proofs.EagerChecks
import DocScript.Proofs.Finishing
import DocScript.Proofs.Frames
import DocScript.Proofs.Grammar
import DocScript.Proofs.ImportPlan
import DocScript.Proofs.Invariants
import DocScript.Proofs.Lasting
import DocScript.Proofs.LineCuts
import DocScript.Proofs.LineWords
import DocScript.Proofs.LiteralFronts
import DocScript.Proofs.LocalNames
import DocScript.Proofs.LocalReads
import DocScript.Proofs.LocalWrites
import DocScript.Proofs.Lockstep
import DocScript.Proofs.LoopExpansion
import DocScript.Proofs.LoopFree
import DocScript.Proofs.NumberText
import DocScript.Proofs.OperandOrder
import DocScript.Proofs.OperandTypes
import DocScript.Proofs.OperatorFolds
import DocScript.Proofs.QuotedText
import DocScript.Proofs.ReadTrees
import DocScript.Proofs.Reading
import DocScript.Proofs.References
import DocScript.Proofs.Refusals
import DocScript.Proofs.RejectedLines
import DocScript.Proofs.Renaming
import DocScript.Proofs.Resetting
import DocScript.Proofs.ReturnPositions
import DocScript.Proofs.ReturnUnwinding
import DocScript.Proofs.RoundTrip
import DocScript.Proofs.ScopeChains
import DocScript.Proofs.ShellLines
import DocScript.Proofs.ShellSafety
import DocScript.Proofs.Simulation
import DocScript.Proofs.StatementLines
import DocScript.Proofs.Subtrees
import DocScript.Proofs.Tables
import DocScript.Proofs.UnitPaths
import DocScript.Proofs.ValueOrder
import DocScript.Proofs.ValueText
import DocScript.Proofs.VariableLines
import DocScript.Scopes
import DocScript.Session.Basic
import DocScript.Session.Listing
import DocScript.Session.Requests
import DocScript.Settings
import DocScript.Shell.Basic
import DocScript.Shell.Command
import DocScript.Table
import DocScript.Text.Graphic
import DocScript.Text.Quoted
import DocScript.Text.Words
import DocScript.Units
import DocScript.Value.Basic
import DocScript.Value.Text

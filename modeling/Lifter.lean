import Lifter.Bounds
import Lifter.Command.Arguments
import Lifter.Command.Run
import Lifter.Config.Basic
import Lifter.Config.File
import Lifter.Config.Settings
import Lifter.Decompile
import Lifter.Explorer.Basic
import Lifter.Explorer.Round
import Lifter.Files.Basic
import Lifter.Files.Tree
import Lifter.Instruction.Basic
import Lifter.Instruction.Encoding
import Lifter.Instruction.Listing
import Lifter.Integer
import Lifter.Json.Basic
import Lifter.Json.Printer
import Lifter.Json.Reader
import Lifter.Log
import Lifter.Main
import Lifter.Path
import Lifter.Program
import Lifter.Proofs.Access
import Lifter.Proofs.AddendScan
import Lifter.Proofs.Arithmetic
import Lifter.Proofs.Assembly
import Lifter.Proofs.Blank
import Lifter.Proofs.Brackets
import Lifter.Proofs.Budget
import Lifter.Proofs.Characters
import Lifter.Proofs.DecodeFaults
import Lifter.Proofs.Depth
import Lifter.Proofs.Encoding
import Lifter.Proofs.Endings
import Lifter.Proofs.FailedRuns
import Lifter.Proofs.ForwardJumps
import Lifter.Proofs.Growth
import Lifter.Proofs.Holdings
import Lifter.Proofs.InPlace
import Lifter.Proofs.JumpTarget
import Lifter.Proofs.Kinship
import Lifter.Proofs.Layout
import Lifter.Proofs.Legible
import Lifter.Proofs.LiteralReading
import Lifter.Proofs.LiteralScan
import Lifter.Proofs.Lockstep
import Lifter.Proofs.Midround
import Lifter.Proofs.Numerals
import Lifter.Proofs.Readability
import Lifter.Proofs.Recursion
import Lifter.Proofs.Reporting
import Lifter.Proofs.Round
import Lifter.Proofs.Schedule
import Lifter.Proofs.Scope
import Lifter.Proofs.SealedLines
import Lifter.Proofs.Secret
import Lifter.Proofs.StepForm
import Lifter.Proofs.Substitution
import Lifter.Proofs.SumOrJoin
import Lifter.Proofs.Termination
import Lifter.Proofs.TreeShape
import Lifter.Proofs.Turn
import Lifter.Proofs.ValueClass
import Lifter.Proofs.Ways
import Lifter.Register
import Lifter.RegisterFile
import Lifter.Report
import Lifter.Secret
import Lifter.Statement
import Lifter.StatementTree
import Lifter.Text.Blank
import Lifter.Text.Character
import Lifter.Text.Invisible
import Lifter.Text.Literal
import Lifter.Text.Numeral
import Lifter.Text.Quoted
import Lifter.Text.Terminal
import Lifter.Toml.Basic
import Lifter.Toml.Document
import Lifter.Toml.Number
import Lifter.Toml.Scalar
import Lifter.Value.Basic
import Lifter.Value.Operations

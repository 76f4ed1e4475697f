import RatLang.Build
import RatLang.Command
import RatLang.Command.Arguments
import RatLang.Command.Build
import RatLang.Command.Completion
import RatLang.Command.Init
import RatLang.Command.Inspect
import RatLang.Command.Run
import RatLang.Digest
import RatLang.FileTree
import RatLang.Fingerprint
import RatLang.Grammar
import RatLang.Grammar.Accept
import RatLang.Json
import RatLang.Llvm.Lower
import RatLang.Llvm.Module
import RatLang.Llvm.Print
import RatLang.Main
import RatLang.Path
import RatLang.Position
import RatLang.Program
import RatLang.Program.Compile
import RatLang.Program.Depth
import RatLang.Program.Instruction
import RatLang.Program.Symbol
import RatLang.Project
import RatLang.Project.Load
import RatLang.Project.Save
import RatLang.Prompt
import RatLang.Statement
import RatLang.Statement.Dump
import RatLang.Statement.Parse
import RatLang.Statement.Warning
import RatLang.Sums
import RatLang.Text
import RatLang.Text.Blank
import RatLang.Text.CodePoint
import RatLang.Text.Numeral
import RatLang.Text.Printable
import RatLang.Text.Quoted
import RatLang.Token
import RatLang.Token.Scan
import RatLang.Translate
import RatLang.Yaml.Base64
import RatLang.Yaml.Character
import RatLang.Yaml.Decode
import RatLang.Yaml.Decode.Key
import RatLang.Yaml.Decode.Record
import RatLang.Yaml.Encoding
import RatLang.Yaml.Error
import RatLang.Yaml.Input
import RatLang.Yaml.Node
import RatLang.Yaml.Node.Compose
import RatLang.Yaml.Real
import RatLang.Yaml.Scanner
import RatLang.Yaml.Timestamp
import RatLang.Yaml.Token
import RatLang.Yaml.Token.Comment
import RatLang.Yaml.Token.Scalar
import RatLang.Yaml.Token.Scan
import RatLang.Yaml.Token.Tag
import RatLang.Yaml.Value
import RatLang.Yaml.Write
import RatLang.Proofs.Program.Emission
import RatLang.Proofs.Program.Symbols
import RatLang.Proofs.Program.Machine
import RatLang.Proofs.Program.Meaning
import RatLang.Proofs.Program.Preservation
import RatLang.Proofs.Program.Depth
import RatLang.Proofs.Llvm.Accept
import RatLang.Proofs.Llvm.Execution
import RatLang.Proofs.Llvm.Simulation
import RatLang.Proofs.Llvm.Refinement
import RatLang.Proofs.Statement.Operands
import RatLang.Proofs.Statement.Warning
import RatLang.Proofs.Llvm.Compiled
import RatLang.Proofs.Text.Numeral
import RatLang.Proofs.Statement.Derivation
import RatLang.Proofs.Statement.Phrases
import RatLang.Proofs.Statement.Step
import RatLang.Proofs.Statement.Recognition
import RatLang.Proofs.Statement.Acceptance
import RatLang.Proofs.Token.Scan
import RatLang.Proofs.Grammar.Acceptance
import RatLang.Proofs.Grammar.Agreement
import RatLang.Proofs.Path
import RatLang.Proofs.FileTree.Location
import RatLang.Proofs.FileTree.MakeDirs
import RatLang.Proofs.Build.SumFile
import RatLang.Proofs.Fingerprint
import RatLang.Proofs.Statement.Relocation
import RatLang.Proofs.Build.Artifact
import RatLang.Proofs.Build.Writing
import RatLang.Proofs.Build.Ledger
import RatLang.Proofs.Build.Run
import RatLang.Proofs.Build.Uncached
import RatLang.Proofs.Build.History
import RatLang.Proofs.Text.CodePoint
import RatLang.Proofs.Token.Choice
import RatLang.Proofs.Position
import RatLang.Proofs.Token.Printing
import RatLang.Proofs.Program.Walk
import RatLang.Proofs.Program.Strictness
import RatLang.Proofs.Statement.Findings
import RatLang.Proofs.Token.Tiling
import RatLang.Proofs.Program.Interruption
import RatLang.Proofs.Program.Relocatable
import RatLang.Proofs.Program.Loops
import RatLang.Proofs.Program.Truncation
import RatLang.Proofs.Grammar.Exactness
import RatLang.Proofs.Program.Addresses
import RatLang.Proofs.Program.Rebasing
import RatLang.Proofs.Build.Paths
import RatLang.Proofs.Build.Verdicts
import RatLang.Proofs.Build.Settled
import RatLang.Proofs.Program.Tables
import RatLang.Proofs.Token.Boundary
import RatLang.Proofs.Build.Separation
import RatLang.Proofs.Json.Spelling
import RatLang.Proofs.Json.Reading
import RatLang.Proofs.Statement.Dump

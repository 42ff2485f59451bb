import ClassLang.Main
import ClassLang.CommandLine.Files
import ClassLang.Source.Build
import ClassLang.Table.Lemmas
import ClassLang.Typed.Erase
import ClassLang.Typed.Expressions
import ClassLang.Proofs.Checker.Types
import ClassLang.Proofs.Checker.Shape
import ClassLang.Proofs.Checker.Judgment
import ClassLang.Proofs.Table
import ClassLang.Proofs.Checker.Method
import ClassLang.Proofs.Checker.Program
import ClassLang.Proofs.Checker.Erasure
import ClassLang.Proofs.Checker.HasType
import ClassLang.Proofs.Lowering.Layouts
import ClassLang.Proofs.Lowering.Builtins
import ClassLang.Proofs.Lowering.Ready
import ClassLang.Proofs.Lowering.Shape
import ClassLang.Proofs.Lowering.Total
import ClassLang.Proofs.Lowering.Module
import ClassLang.Proofs.Lowering.Addresses
import ClassLang.Proofs.Lowering.Symbols
import ClassLang.Proofs.Lowering.Compiled
import ClassLang.Proofs.Lowering.Linked
import ClassLang.Proofs.Stack.Height
import ClassLang.Proofs.Stack.Lowering
import ClassLang.Proofs.Stack.Module
import ClassLang.Proofs.Compile
import ClassLang.Proofs.Returns.Paths
import ClassLang.Proofs.Returns.Definite
import ClassLang.Proofs.Returns.Bare
import ClassLang.Proofs.Checker.Naming
import ClassLang.Proofs.Checker.Internal
import ClassLang.Proofs.Checker.MeetsAny
import ClassLang.Proofs.Checker.Blame
import ClassLang.Proofs.Machine.Memory
import ClassLang.Proofs.Machine.State
import ClassLang.Proofs.Semantics.Eval
import ClassLang.Proofs.Machine.Exec
import ClassLang.Proofs.Machine.History
import ClassLang.Proofs.Machine.Construct
import ClassLang.Proofs.Semantics.Growth
import ClassLang.Proofs.Simulation.Words
import ClassLang.Proofs.Simulation.Agreement
import ClassLang.Proofs.Simulation.Setting
import ClassLang.Proofs.Simulation.Storage
import ClassLang.Proofs.Simulation.Operators
import ClassLang.Proofs.Simulation.Construct
import ClassLang.Proofs.Simulation.Expr
import ClassLang.Proofs.Simulation.Stmt
import ClassLang.Proofs.Simulation.Method
import ClassLang.Proofs.Simulation.Program
import ClassLang.Proofs.Preservation
import ClassLang.Proofs.Safety.Heap
import ClassLang.Proofs.Safety.Invariant
import ClassLang.Proofs.Safety.Step
import ClassLang.Proofs.Safety.Access
import ClassLang.Proofs.Safety.Expr
import ClassLang.Proofs.Safety.Stmt
import ClassLang.Proofs.Safety.Call
import ClassLang.Proofs.Safety.Program
import ClassLang.Proofs.Safety
import ClassLang.Proofs.Identity
import ClassLang.Proofs.Checker.Declared
import ClassLang.Proofs.Checker.Signature
import ClassLang.Proofs.Checker.Order
import ClassLang.Proofs.CommandLine.Files
import ClassLang.Proofs.CommandLine.Run
import ClassLang.Proofs.Json.Edits
import ClassLang.Proofs.Json.RoundTrip
import ClassLang.Proofs.Checker.Methods
import ClassLang.Proofs.Checker.Expressions
import ClassLang.Proofs.Checker.Parens
import ClassLang.Proofs.Lowering.Parens
import ClassLang.Proofs.Returns.Ends
import ClassLang.Proofs.Lowering.Fields
import ClassLang.Proofs.Lowering.Offsets
import ClassLang.Proofs.Json.Scan
import ClassLang.Proofs.Json.Text
import ClassLang.Proofs.Json.Typed
import ClassLang.Proofs.Json.Dump
import ClassLang.Proofs.Targets
import ClassLang.Proofs.Lowering.Instructions
import ClassLang.Proofs.Lowering.Writes
import ClassLang.Proofs.Returns.Exits
import ClassLang.Proofs.Lowering.Reuse
import ClassLang.Proofs.Checker.Repeats
import ClassLang.Proofs.Lowering.Failures
import ClassLang.Proofs.Lowering.Names
import ClassLang.Proofs.Checker.Weakening
import ClassLang.Proofs.Lowering.Weakening
import ClassLang.Proofs.Extension
import ClassLang.Proofs.Machine.Result
import ClassLang.Proofs.Entry
import ClassLang.Proofs.Returns.Verdict
import ClassLang.Proofs.Text.Tokens
import ClassLang.Proofs.Text.Code
import ClassLang.Proofs.Text.Tree
import ClassLang.Proofs.Text.Instructions
import ClassLang.Proofs.Text.Module
import ClassLang.Proofs.MethodScope
import ClassLang.Proofs.Places

import Cpplox.Ast
import Cpplox.Ast.Assemble
import Cpplox.Ast.Derivation
import Cpplox.Ast.Emits
import Cpplox.Ast.Factor
import Cpplox.Ast.FactorExpressions
import Cpplox.Ast.FactorStatements
import Cpplox.Ast.Filled
import Cpplox.Ast.Lower
import Cpplox.Ast.LowerSteps
import Cpplox.Ast.Parse
import Cpplox.Ast.Program
import Cpplox.Bytecode.Agreement
import Cpplox.Bytecode.Attained
import Cpplox.Bytecode.Decoding
import Cpplox.Bytecode.Disassembly
import Cpplox.Bytecode.Discipline
import Cpplox.Bytecode.Heights
import Cpplox.Bytecode.Operations
import Cpplox.Bytecode.Ordinary
import Cpplox.Bytecode.WellFormed
import Cpplox.Chunk
import Cpplox.Compiler.Alike
import Cpplox.Compiler.Compile
import Cpplox.Compiler.Control
import Cpplox.Compiler.Emit
import Cpplox.Compiler.Ends
import Cpplox.Compiler.Fuel
import Cpplox.Compiler.Machine
import Cpplox.Compiler.Progress
import Cpplox.Compiler.Reported
import Cpplox.Compiler.Scope
import Cpplox.Compiler.Spacing
import Cpplox.Compiler.Survey
import Cpplox.Compiler.Surveyed
import Cpplox.Compiler.Terminates
import Cpplox.Contexts.Certify
import Cpplox.Contexts.Declaring
import Cpplox.Contexts.Leaves
import Cpplox.Contexts.Lowers
import Cpplox.Contexts.Numbering
import Cpplox.Contexts.Typing
import Cpplox.Data.BackFirst
import Cpplox.Data.Confined
import Cpplox.Data.Contracts
import Cpplox.Data.Enacts
import Cpplox.Data.Map
import Cpplox.Data.Matched
import Cpplox.Data.Munch
import Cpplox.Data.NestedScopes
import Cpplox.Data.Pairing
import Cpplox.Data.Routines
import Cpplox.Data.Simulates
import Cpplox.Data.Twins
import Cpplox.Data.TwoRuns
import Cpplox.Grammar.Accepted
import Cpplox.Grammar.Complete
import Cpplox.Grammar.Consumes
import Cpplox.Grammar.Derives
import Cpplox.Grammar.Language
import Cpplox.Grammar.Lookahead
import Cpplox.Grammar.Normal
import Cpplox.Grammar.Passes
import Cpplox.Grammar.Quiet
import Cpplox.Grammar.Sound
import Cpplox.Grammar.Yields
import Cpplox.Instruction
import Cpplox.Integers
import Cpplox.Memory
import Cpplox.Memory.Collect
import Cpplox.Memory.Contents
import Cpplox.Memory.Marking
import Cpplox.Object
import Cpplox.Scanner
import Cpplox.Scanner.Exact
import Cpplox.Scanner.Lexemes
import Cpplox.Scanner.Lines
import Cpplox.Scanner.Spacing
import Cpplox.Scanner.Tokenize
import Cpplox.Scoping.Beginnings
import Cpplox.Scoping.Capturing
import Cpplox.Scoping.Initializers
import Cpplox.Scoping.Lexical
import Cpplox.Scoping.Occurrences
import Cpplox.Scoping.Premature
import Cpplox.Scoping.Resolution
import Cpplox.Scoping.Walk
import Cpplox.Semantics.Evaluate
import Cpplox.Semantics.Interpreter
import Cpplox.Semantics.Lowering
import Cpplox.Semantics.Methods
import Cpplox.Semantics.Perform
import Cpplox.Semantics.Places
import Cpplox.Semantics.Preserved
import Cpplox.Semantics.Store
import Cpplox.Semantics.Unnoticed
import Cpplox.Structured.Attained
import Cpplox.Structured.Code
import Cpplox.Structured.Enacts
import Cpplox.Structured.Verify
import Cpplox.Tracking.Captures
import Cpplox.Tracking.Chains
import Cpplox.Tracking.Exits
import Cpplox.Tracking.Grows
import Cpplox.Tracking.History
import Cpplox.Tracking.Lowers
import Cpplox.Tracking.Outline
import Cpplox.Tracking.Reached
import Cpplox.Tracking.Scopes
import Cpplox.Vm.Activations
import Cpplox.Vm.Balance
import Cpplox.Vm.Calls
import Cpplox.Vm.Declarations
import Cpplox.Vm.Defined
import Cpplox.Vm.Effect
import Cpplox.Vm.Elementary
import Cpplox.Vm.Failures
import Cpplox.Vm.Interleaving
import Cpplox.Vm.Interning
import Cpplox.Vm.Iterations
import Cpplox.Vm.Loaded
import Cpplox.Vm.Loading
import Cpplox.Vm.Made
import Cpplox.Vm.Outcome
import Cpplox.Vm.Run
import Cpplox.Vm.Session
import Cpplox.Vm.Sound
import Cpplox.Vm.State
import Cpplox.Vm.Tables
import Cpplox.Vm.Throws
import Cpplox.Vm.TwinInstructions
import Cpplox.Vm.TwinLoading
import Cpplox.Vm.TwinSteps
import Cpplox.Vm.Twins
import Cpplox.Vm.Typed

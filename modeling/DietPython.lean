import DietPython.Lib.Transducer
import DietPython.ModuleGlobals.Cache
import DietPython.ModuleGlobals.Coherence
import DietPython.ModuleGlobals.Runs
import DietPython.Generators.ClosureGenerator
import DietPython.Lib.Machine
import DietPython.Jit.CallSite
import DietPython.Jit.CallOrder
import DietPython.Jit.CallAgreement
import DietPython.Jit.HelperNames
import DietPython.Jit.HelperAgreement
import DietPython.Expressions.Core
import DietPython.Expressions.Fragments
import DietPython.Expressions.Lowering
import DietPython.Expressions.Hoisting
import DietPython.Expressions.Order
import DietPython.Expressions.OrderExact
import DietPython.Expressions.Suspension
import DietPython.ControlFlow.Graph
import DietPython.ControlFlow.Lowering
import DietPython.ControlFlow.Freshness
import DietPython.ControlFlow.Passes
import DietPython.ControlFlow.Placement
import DietPython.ControlFlow.Edges
import DietPython.ControlFlow.Correspondence
import DietPython.ControlFlow.StatementSteps
import DietPython.ControlFlow.CompoundSteps
import DietPython.ControlFlow.SignalSteps
import DietPython.ControlFlow.FinallySteps
import DietPython.ControlFlow.Simulation
import DietPython.ControlFlow.Meanings
import DietPython.ControlFlow.Sequences
import DietPython.ControlFlow.FinallyRuns
import DietPython.ControlFlow.CurrentException
import DietPython.ControlFlow.WithDesugaring
import DietPython.ControlFlow.WithFrames
import DietPython.ControlFlow.WithSteps
import DietPython.ControlFlow.WithItems
import DietPython.ControlFlow.WithExits
import DietPython.ControlFlow.WithRuns
import DietPython.ModuleGlobals.Registry
import DietPython.ModuleGlobals.RegistryRuns
import DietPython.Calls.Binder
import DietPython.Calls.Binding
import DietPython.Calls.Direct
import DietPython.Generators.ResumeAgreement
import DietPython.Generators.HandlerExceptions
import DietPython.Generators.ReturnRaises
import DietPython.Generators.StopIterationEscapes
import DietPython.Exceptions.RaiseTerminator
import DietPython.Blocks.Basic
import DietPython.Blocks.BlockShape
import DietPython.Blocks.Finalize
import DietPython.Blocks.FinalizeRuns
import DietPython.Blocks.Finished
import DietPython.Blocks.OptBlock
import DietPython.Blocks.ExceptionSplit
import DietPython.Blocks.ExplicitYields
import DietPython.Generators.ExplicitResume
import DietPython.Blocks.ConstantTable
import DietPython.Jit.BlockEdges
import DietPython.Counters.HeavyHitters
import DietPython.Counters.Ids
import DietPython.Counters.Storage
import DietPython.Generators.CallableScopes
import DietPython.Jit.DirectRunners
import DietPython.Counters.DumpParse
import DietPython.Counters.DumpRoundTrip
import DietPython.Counters.DumpSafety
import DietPython.Counters.DumpAccepted
import DietPython.Syntax.Nodes
import DietPython.Syntax.PrivateNames
import DietPython.Syntax.Annotations
import DietPython.ModuleConstants.Collector
import DietPython.ModuleConstants.Lookups
import DietPython.StringTemplates.Exact
import DietPython.Scopes.Aliases
import DietPython.Iteration.Helpers
import DietPython.Iteration.Loops
import DietPython.Calls.Defaults
import DietPython.TypeAliases.Frame
import DietPython.Lib.Lockstep
import DietPython.Imports.Agreement
import DietPython.Blocks.InstrMaps
import DietPython.Scopes.DeletedLoadRuns
import DietPython.Exceptions.HandlerChains
import DietPython.Exceptions.StarChains
import DietPython.Matching.Captures
import DietPython.Matching.Cases
import DietPython.Targets.Lowering
import DietPython.Targets.Runs
import DietPython.AsyncGenerators.Awaitables
import DietPython.AsyncGenerators.Interleavings
import DietPython.Closures.Cells
import DietPython.Lib.Interning
import DietPython.Names.Distinct
import DietPython.Slots.Tables
import DietPython.Jit.Balance
import DietPython.Targets.Statements
import DietPython.Closures.Variables
import DietPython.Counters.BlockEntries
import DietPython.Closures.Validation
import DietPython.Counters.InstrIds

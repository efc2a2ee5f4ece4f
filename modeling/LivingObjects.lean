import LivingObjects.Lib.WordBytes
import LivingObjects.Lib.ByteMem
import LivingObjects.Lib.Fnv
import LivingObjects.Lib.FramedLog
import LivingObjects.Lib.MemProgram
import LivingObjects.VM.Object
import LivingObjects.ObjectMemory.Pages
import LivingObjects.Journal.Append
import LivingObjects.Journal.Replay
import LivingObjects.Journal.Relocate
import LivingObjects.Journal.TornTail
import LivingObjects.Journal.FailedAppends
import LivingObjects.Journal.Idempotent
import LivingObjects.ObjectMemory.Alloc
import LivingObjects.ObjectMemory.Layout
import LivingObjects.Checkpoint.Format
import LivingObjects.Checkpoint.Corruption
import LivingObjects.Checkpoint.Serialize
import LivingObjects.Checkpoint.Restart
import LivingObjects.Checkpoint.Loadable
import LivingObjects.Checkpoint.CleanPages
import LivingObjects.Checkpoint.Mutations
import LivingObjects.Checkpoint.Incremental
import LivingObjects.Checkpoint.Durability
import LivingObjects.Interp.Control
import LivingObjects.Interp.Nest
import LivingObjects.Interp.Exceptions
import LivingObjects.Interp.ScopedReturn
import LivingObjects.Interp.Runs
import LivingObjects.Lib.Segment
import LivingObjects.Stack.Frame
import LivingObjects.Txn.Log
import LivingObjects.Txn.Nesting
import LivingObjects.Txn.Access
import LivingObjects.Txn.Overlay
import LivingObjects.Txn.Install
import LivingObjects.Txn.Transparent
import LivingObjects.Txn.Rollback
import LivingObjects.Stack.Chain
import LivingObjects.Stack.Contexts
import LivingObjects.Gc.StackSlots
import LivingObjects.Gc.Collect
import LivingObjects.Gc.Cheney
import LivingObjects.Gc.Overflow
import LivingObjects.Gc.Retry
import LivingObjects.Gc.PendingWrites
import LivingObjects.Gc.Walkers
import LivingObjects.Gc.Remembered
import LivingObjects.Gc.Invisible
import LivingObjects.Stack.Homes
import LivingObjects.Lib.Attempt
import LivingObjects.Compiler.Tokenizer
import LivingObjects.Compiler.Codegen
import LivingObjects.Compiler.Grammar
import LivingObjects.Compiler.Growth
import LivingObjects.Compiler.Lookahead
import LivingObjects.Compiler.Expressions
import LivingObjects.Compiler.Scopes
import LivingObjects.Compiler.Emission
import LivingObjects.Compiler.Frames
import LivingObjects.Compiler.BlockTemps
import LivingObjects.Lib.Trace
import LivingObjects.ObjectMemory.Apart
import LivingObjects.ObjectMemory.HeapWalk
import LivingObjects.Lib.WordPass
import LivingObjects.Checkpoint.RoundTrip
import LivingObjects.Checkpoint.PageConversion
import LivingObjects.ObjectMemory.Bodies
import LivingObjects.Classes.MethodDict
import LivingObjects.Classes.Installs
import LivingObjects.Classes.Symbols
import LivingObjects.Classes.Interning
import LivingObjects.Stack.SenderChain
import LivingObjects.Compiler.Backtrack
import LivingObjects.ObjectMemory.Walkable
import LivingObjects.Classes.Globals
import LivingObjects.Interp.HeapPrimitives
import LivingObjects.Compiler.Chunks
import LivingObjects.Classes.Materialize
import LivingObjects.Classes.Spared
import LivingObjects.Classes.SourceInstall
import LivingObjects.Lib.AArch64
import LivingObjects.Interp.SmallintPrimitives
import LivingObjects.Classes.InstVars
import LivingObjects.Interp.BasicNew
import LivingObjects.Stack.RoundTrip
import LivingObjects.Stack.Refinement
import LivingObjects.Stack.LimitLow
import LivingObjects.Compiler.Resolution
import LivingObjects.Lib.Logged
import LivingObjects.Compiler.Sends
import LivingObjects.Compiler.Cascades
import LivingObjects.Compiler.Steps
import LivingObjects.Classes.Hierarchy
import LivingObjects.Compiler.ChunkFormat
import LivingObjects.Compiler.MethodBody
import LivingObjects.Checkpoint.PlainImage
import LivingObjects.Compiler.BlockSource
import LivingObjects.Smalltalk.Tokenizer
import LivingObjects.Smalltalk.Peek
import LivingObjects.Smalltalk.Lexemes
import LivingObjects.Smalltalk.TokenizersAgree
import LivingObjects.Smalltalk.Parser
import LivingObjects.Smalltalk.Printing
import LivingObjects.Smalltalk.ParserSteps
import LivingObjects.Smalltalk.ParserReads
import LivingObjects.Smalltalk.ParserWeights
import LivingObjects.Smalltalk.ParserTight
import LivingObjects.Smalltalk.ParserRoundTrip
import LivingObjects.Smalltalk.CodeGenerator
import LivingObjects.Smalltalk.OperandStack
import LivingObjects.Smalltalk.StackDiscipline
import LivingObjects.Lib.Assembly
import LivingObjects.VM.Macros
import LivingObjects.Classes.LookupAssembly
import LivingObjects.Txn.LogAssembly
import LivingObjects.Gc.CollectAssembly

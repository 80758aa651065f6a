import Stainless.Reasoning.Bytes
import Stainless.Reasoning.DurableFile
import Stainless.Runtime.OrderedMap
import Stainless.Kvstore.CrashRevert
import Stainless.Kvstore.CommittedPrefix
import Stainless.Kvstore.KeyOrder
import Stainless.Runtime.VarRuns
import Stainless.Http.Server
import Stainless.Http.EventStream
import Stainless.Http.EventStreamRuns
import Stainless.Poker.Dealer
import Stainless.Reasoning.Effects
import Stainless.Poker.Chain
import Stainless.Crypto.Crypto
import Stainless.Poker.Hand
import Stainless.Poker.Coordinator
import Stainless.Poker.Frames
import Stainless.Poker.HandReset
import Stainless.Poker.HandFrames
import Stainless.Poker.HandEvents
import Stainless.Poker.Synchronization
import Stainless.Poker.Snapshots
import Stainless.Poker.Deployments
import Stainless.Kvstore.Framing
import Stainless.Kvstore.KeyCodec
import Stainless.Crypto.WideMultiplication
import Stainless.Poker.PayoutRuns
import Stainless.Compiler.TypeRef
import Stainless.Reasoning.Chains
import Stainless.Reasoning.GuardedSearch
import Stainless.Compiler.Declarations
import Stainless.Compiler.Termination
import Stainless.Compiler.Exceptions
import Stainless.Reasoning.Passes
import Stainless.Compiler.ControlFlow
import Stainless.Compiler.SourceRuns
import Stainless.Compiler.Lowering
import Stainless.Compiler.Emission
import Stainless.Compiler.LoweringRuns
import Stainless.Compiler.LoweringPreserves
import Stainless.Compiler.TranspiledBodies
import Stainless.Reasoning.MachineWord
import Stainless.Crypto.CheckedMultiplication
import Stainless.Crypto.DecimalText
import Stainless.Poker.Preimages
import Stainless.Reasoning.Rounding
import Stainless.Runtime.NumericConversion
import Stainless.Wallet.Wallet
import Stainless.Reasoning.Radix
import Stainless.Wallet.Checksum
import Stainless.Wallet.Regrouping
import Stainless.Wallet.Addresses
import Stainless.Poker.Sessions
import Stainless.Poker.BettingRounds
import Stainless.Poker.HandCodec
import Stainless.Poker.ArrivalOrder
import Stainless.Runtime.MultiMap
import Stainless.Compiler.Mangling
import Stainless.Packages.Resolver
import Stainless.Reasoning.DependencyOrder
import Stainless.Packages.Resolution
import Stainless.Reasoning.Budgets
import Stainless.Syntax.Expressions
import Stainless.Syntax.Precedence
import Stainless.Compiler.Overloads
import Stainless.Compiler.OverloadRule
import Stainless.Poker.PayoutTotality
import Stainless.Poker.HandPhases
import Stainless.Kvstore.Checksum
import Stainless.Poker.Atomicity
import Stainless.Poker.BettingRecords
import Stainless.Kvstore.DatabaseRuns
import Stainless.Reasoning.Versions
import Stainless.Kvstore.TypedTable
import Stainless.Poker.StoreTable
import Stainless.Http.Exchanges
import Stainless.Http.Commands
import Stainless.Http.Payloads
import Stainless.Reasoning.Returning
import Stainless.Syntax.Lossless
import Stainless.Syntax.Routines
import Stainless.Syntax.SourceFiles
import Stainless.Reasoning.LongestMatch
import Stainless.Syntax.Lexer
import Stainless.Syntax.Lexing
import Stainless.Reasoning.Lockstep
import Stainless.Syntax.SideBySide
import Stainless.Syntax.Trivia
import Stainless.Syntax.SourceExpressions

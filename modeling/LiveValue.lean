import LiveValue.ActionEvent
import LiveValue.Config.Stock
import LiveValue.Host.Stock
import LiveValue.Log.Setup
import LiveValue.Proofs.ArgumentLists
import LiveValue.Proofs.ArgumentPieces
import LiveValue.Proofs.BalancedBodies
import LiveValue.Proofs.CallSyntax
import LiveValue.Proofs.Comparison
import LiveValue.Proofs.Concatenation
import LiveValue.Proofs.Course
import LiveValue.Proofs.HostFunction
import LiveValue.Proofs.Invariants
import LiveValue.Proofs.Integers
import LiveValue.Proofs.Quoting
import LiveValue.Proofs.Refusals
import LiveValue.Proofs.Simulation
import LiveValue.Proofs.Strictness
import LiveValue.Proofs.Termination
import LiveValue.Proofs.Terms
import LiveValue.Proofs.Tokens
import LiveValue.Proofs.TokenExpansion
import LiveValue.Proofs.ChangedContext
import LiveValue.Proofs.DepthLimit
import LiveValue.Proofs.Conversions
import LiveValue.Proofs.Overriding
import LiveValue.Proofs.RecursionGuard
import LiveValue.Proofs.CoursePaths
import LiveValue.Proofs.FaultOrigins
import LiveValue.Proofs.FormattingCall
import LiveValue.Proofs.AbsentScope
import LiveValue.Proofs.Addresses
import LiveValue.Proofs.ScopedPaths
import LiveValue.Proofs.PathFaults
import LiveValue.Proofs.Layers
import LiveValue.Proofs.DocumentedLibraries
import LiveValue.Proofs.StockLibraries
import LiveValue.Proofs.LoadingFailures
import LiveValue.Proofs.SettingSources
import LiveValue.Proofs.BoundVariables
import LiveValue.Proofs.EventContext
import LiveValue.Proofs.ShortestDecimals
import LiveValue.Proofs.NumberTexts
import LiveValue.Proofs.PlainNumbers
import LiveValue.Proofs.JsonReading
import LiveValue.Proofs.WrittenParts
import LiveValue.Proofs.StructuredText
import LiveValue.Proofs.FirstMention
import LiveValue.Proofs.QuoteAgreement
import LiveValue.Proofs.NestedArguments
import LiveValue.Proofs.NestingHeight
import LiveValue.Proofs.TemplatePhases
import LiveValue.Proofs.EmbeddedText
import LiveValue.Proofs.Delimiters
import LiveValue.Proofs.Unescaping
import LiveValue.Proofs.Rounding
import LiveValue.Proofs.NearestNumbers
import LiveValue.Proofs.NumberGrammar
import LiveValue.Proofs.IntegerSums
import LiveValue.Proofs.FewestDigits
import LiveValue.Proofs.PositionalNotation
import LiveValue.Proofs.ShownNumbers
import LiveValue.Proofs.NumbersInside
import LiveValue.Proofs.CallOrder
import LiveValue.Proofs.Promises
import LiveValue.Proofs.JsonValues
import LiveValue.Proofs.EventPayloads
import LiveValue.Proofs.Calendar
import LiveValue.Proofs.Timestamps
import LiveValue.Proofs.RegistrySnapshots
import LiveValue.Proofs.BlockDiscipline
import LiveValue.Proofs.LoggingSetup

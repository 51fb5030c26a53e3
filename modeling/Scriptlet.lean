import Scriptlet.CommandLine
import Scriptlet.Data.Convert
import Scriptlet.Document
import Scriptlet.Main
import Scriptlet.Runner
import Scriptlet.Scope.Family
import Scriptlet.Scope.Heap
import Scriptlet.Machine
import Scriptlet.Proofs.Outcome
import Scriptlet.Proofs.Judgements
import Scriptlet.Proofs.Path
import Scriptlet.Proofs.Ownership
import Scriptlet.Proofs.ValueSemantics
import Scriptlet.Proofs.Isolation
import Scriptlet.Proofs.Grammar
import Scriptlet.Proofs.Lexical
import Scriptlet.Proofs.ParserSoundness
import Scriptlet.Proofs.ExpressionReading
import Scriptlet.Proofs.ParserCompleteness
import Scriptlet.Proofs.Conduct
import Scriptlet.Proofs.Stability
import Scriptlet.Proofs.Leaves
import Scriptlet.Proofs.Holding
import Scriptlet.Proofs.Raising
import Scriptlet.Proofs.Recursion
import Scriptlet.Proofs.Literals
import Scriptlet.Proofs.Failures
import Scriptlet.Proofs.Standing
import Scriptlet.Proofs.TreeMaps
import Scriptlet.Proofs.Moving
import Scriptlet.Proofs.SideBySide
import Scriptlet.Proofs.Locality
import Scriptlet.Proofs.ReadingCourse
import Scriptlet.Proofs.SourceLocations
import Scriptlet.Proofs.ErrorPlaces
import Scriptlet.Proofs.SourceContext
import Scriptlet.Proofs.ContextWindow
import Scriptlet.Proofs.Continuation
import Scriptlet.Proofs.ViablePrefix
import Scriptlet.Proofs.ScriptConcatenation
import Scriptlet.Proofs.Rewriting
import Scriptlet.Proofs.RewrittenRuns
import Scriptlet.Proofs.Relocation
import Scriptlet.Proofs.MovedRuns
import Scriptlet.Proofs.ScriptSplitting
import Scriptlet.Proofs.NumberLiterals
import Scriptlet.Proofs.PatternLanguages
import Scriptlet.Proofs.StringLiterals
import Scriptlet.Proofs.PrintedStrings
import Scriptlet.Proofs.PrintedValues
import Scriptlet.Proofs.ExpressionStatements
import Scriptlet.Proofs.Layout
import Scriptlet.Proofs.InsertedGaps
import Scriptlet.Proofs.Arithmetic
import Scriptlet.Proofs.NumberRange
import Scriptlet.Proofs.SuccessiveRuns
import Scriptlet.Proofs.ConstantGlobals
import Scriptlet.Proofs.JsonFuel
import Scriptlet.Proofs.JsonRoundTrip
import Scriptlet.Proofs.Transport
import Scriptlet.Proofs.CallJournal
import Scriptlet.Proofs.TokenRuns
import Scriptlet.Proofs.ReadingPieces
import Scriptlet.Proofs.NodeSpans
import Scriptlet.Proofs.StandingForms
import Scriptlet.Proofs.SourceSlices
import Scriptlet.Proofs.FunctionSources
import Scriptlet.Proofs.PrintedNumbers
import Scriptlet.Proofs.DataConversion
import Scriptlet.Proofs.NamedEntries
import Scriptlet.Proofs.DocumentConstants
import Scriptlet.Proofs.PrintedEffects
import Scriptlet.Proofs.ExitStatus
import Scriptlet.Proofs.FreshValues
import Scriptlet.Proofs.ScopeFamilies
import Scriptlet.Proofs.Footprints
import Scriptlet.Proofs.ScopesInHeap
import Scriptlet.Proofs.DistinctNames
import Scriptlet.Proofs.VisibleNames
import Scriptlet.Proofs.CallStack
import Scriptlet.Proofs.NoSharing
import Scriptlet.Proofs.ReferenceSteps
import Scriptlet.Proofs.ReferenceRuns
import Scriptlet.Proofs.ReferenceSessions
import Scriptlet.Proofs.ObjectsByReference
import Scriptlet.Proofs.CallsByReference
import Scriptlet.Proofs.Ungrouping
import Scriptlet.Proofs.UngroupedRuns

import StackBridge.Build.Api
import StackBridge.Build.Configure
import StackBridge.Build.Location
import StackBridge.Build.Package
import StackBridge.Build.Prompting
import StackBridge.Chat.Message
import StackBridge.Chat.Request
import StackBridge.Chat.Response
import StackBridge.Chat.Tool
import StackBridge.Codec.Basic
import StackBridge.Codec.Record
import StackBridge.Codec.Variant
import StackBridge.Command.Arguments
import StackBridge.Command.Run
import StackBridge.Conversion.Advisory
import StackBridge.Conversion.Incoming
import StackBridge.Conversion.Interleaving
import StackBridge.Conversion.Outgoing
import StackBridge.Conversion.Stream
import StackBridge.Decimal.Layout
import StackBridge.Decimal.Nearest
import StackBridge.Decimal.Shortest
import StackBridge.Failure
import StackBridge.FileTree
import StackBridge.Json.Basic
import StackBridge.Json.Compact
import StackBridge.Json.Container
import StackBridge.Json.Cursor
import StackBridge.Json.Lexeme
import StackBridge.Json.Reading
import StackBridge.Json.Skip
import StackBridge.Main
import StackBridge.Mismatch
import StackBridge.Number
import StackBridge.Provider.Completion
import StackBridge.Provider.Request
import StackBridge.SortedMap
import StackBridge.Text.Blank
import StackBridge.Text.Quoted
import StackBridge.Text.Visible
import StackBridge.Yaml.Cursor
import StackBridge.Yaml.Event
import StackBridge.Yaml.Fault
import StackBridge.Yaml.Grammar
import StackBridge.Yaml.Node
import StackBridge.Yaml.Reading
import StackBridge.Yaml.Scalar
import StackBridge.Yaml.Style
import StackBridge.Yaml.Token
import StackBridge.Yaml.Token.Name
import StackBridge.Yaml.Token.Scalar
import StackBridge.Yaml.Token.Scan
import StackBridge.Yaml.Value
import StackBridge.Yaml.Writing
import StackBridge.Proofs.Parts
import StackBridge.Proofs.StreamStep
import StackBridge.Proofs.Transcript
import StackBridge.Proofs.Causality
import StackBridge.Proofs.CollectorHandles
import StackBridge.Proofs.SharedCollector
import StackBridge.Proofs.Assembly
import StackBridge.Proofs.Degradation
import StackBridge.Proofs.WaitingItems
import StackBridge.Proofs.RequestMapping
import StackBridge.Proofs.NormalForm
import StackBridge.Proofs.RoundTrip
import StackBridge.Proofs.Records
import StackBridge.Proofs.ReaderAnswers
import StackBridge.Proofs.WireTypes
import StackBridge.Proofs.WireStability
import StackBridge.Proofs.DocumentReading
import StackBridge.Proofs.BuildFile
import StackBridge.Proofs.Settings
import StackBridge.Proofs.Rewrite
import StackBridge.Proofs.Atomicity
import StackBridge.Proofs.CollectorHistory
import StackBridge.Proofs.SkippedValues
import StackBridge.Proofs.DecodingRoutes
import StackBridge.Proofs.Presentation
import StackBridge.Proofs.UnknownMembers
import StackBridge.Proofs.WirePresentation
import StackBridge.Proofs.Spacing
import StackBridge.Proofs.ContentGrammar
import StackBridge.Proofs.DialogueLines
import StackBridge.Proofs.AnswerValues
import StackBridge.Proofs.CompactText
import StackBridge.Proofs.PrintedCalls
import StackBridge.Proofs.CallConversion
import StackBridge.Proofs.CompletionOutcome
import StackBridge.Proofs.RequestBody
import StackBridge.Proofs.SamplingDefaults
import StackBridge.Proofs.Cursors
import StackBridge.Proofs.PlainScalars
import StackBridge.Proofs.ScalarMeaning
import StackBridge.Proofs.PlainNumbers
import StackBridge.Proofs.ShortestDecimals
import StackBridge.Proofs.NearestFloats
import StackBridge.Proofs.FloatBits
import StackBridge.Proofs.FloatTexts
import StackBridge.Proofs.QuotedScalars
import StackBridge.Proofs.LiteralBlocks
import StackBridge.Proofs.ShownValues
import StackBridge.Proofs.TagNames
import StackBridge.Proofs.WrittenScalars
import StackBridge.Proofs.ScanStages
import StackBridge.Proofs.ScanTokens
import StackBridge.Proofs.ScanRuns
import StackBridge.Proofs.ScannedNodes
import StackBridge.Proofs.ScannedDocuments
import StackBridge.Proofs.ParsedNodes
import StackBridge.Proofs.PrintedText
import StackBridge.Proofs.ShownPackages
import StackBridge.Proofs.ReadValues
import StackBridge.Proofs.Reload
import StackBridge.Proofs.MessageMapping
import StackBridge.Proofs.ConfigureGrammar
import StackBridge.Proofs.TokenAlternatives
import StackBridge.Proofs.BuildPlaces
import StackBridge.Proofs.PathNames

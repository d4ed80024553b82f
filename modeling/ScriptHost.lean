import ScriptHost.Data.Dict
import ScriptHost.Data.Value
import ScriptHost.Data.Merge
import ScriptHost.Text.Utf8
import ScriptHost.Text.Characters
import ScriptHost.Decimal.Digits
import ScriptHost.Decimal.Shortest
import ScriptHost.Json.Printer
import ScriptHost.Json.Fault
import ScriptHost.Json.Numeral
import ScriptHost.Json.StringBody
import ScriptHost.Json.Token
import ScriptHost.Json.Walk
import ScriptHost.Json.Reader
import ScriptHost.Json.Record
import ScriptHost.Digest.Sha256
import ScriptHost.Disk
import ScriptHost.Config
import ScriptHost.Context
import ScriptHost.Http.Uri
import ScriptHost.Http.Query
import ScriptHost.Http.Header
import ScriptHost.Http.Status
import ScriptHost.Http.Message
import ScriptHost.Item
import ScriptHost.Provider.Basic
import ScriptHost.Provider.Buckets
import ScriptHost.Provider.Layers
import ScriptHost.Provider.Tree
import ScriptHost.Time.Calendar
import ScriptHost.Time.Instant
import ScriptHost.Machine
import ScriptHost.Program.Source
import ScriptHost.Program.Content
import ScriptHost.Program.Basic
import ScriptHost.Run.Outcome
import ScriptHost.Run.Evaluator
import ScriptHost.Failure
import ScriptHost.Plugin.Engines
import ScriptHost.Plugin.Scripted
import ScriptHost.Proofs.Data.MergeList
import ScriptHost.Proofs.Data.MergePaths
import ScriptHost.Proofs.Data.MergeAssoc
import ScriptHost.Proofs.Item.Classification
import ScriptHost.Proofs.Provider.BucketWrite
import ScriptHost.Proofs.Provider.BestEffort
import ScriptHost.Proofs.Provider.BucketContents
import ScriptHost.Proofs.Provider.TreeWalk
import ScriptHost.Proofs.Provider.LayeredRead
import ScriptHost.Proofs.Provider.NestedLayers
import ScriptHost.Proofs.Provider.Refusal
import ScriptHost.Proofs.Provider.TreeWrite
import ScriptHost.Proofs.Provider.Disclosure
import ScriptHost.Proofs.Provider.TokenBlind
import ScriptHost.Proofs.Context.History
import ScriptHost.Proofs.Run.Enrichment
import ScriptHost.Proofs.Run.Callers
import ScriptHost.Proofs.Provider.LayerPositions
import ScriptHost.Proofs.Provider.FailFast
import ScriptHost.Proofs.Provider.ThinnedWrite
import ScriptHost.Proofs.Program.DraftCalls
import ScriptHost.Proofs.Program.BuildHistory
import ScriptHost.Proofs.Text.Pieces
import ScriptHost.Proofs.Text.Decoding
import ScriptHost.Proofs.Text.LetterCase
import ScriptHost.Proofs.Http.Messages
import ScriptHost.Proofs.Http.HeaderLines
import ScriptHost.Proofs.Http.Bodies
import ScriptHost.Proofs.Http.QueryParameters
import ScriptHost.Proofs.Http.AddressParts
import ScriptHost.Proofs.Http.AddressText
import ScriptHost.Proofs.Json.Strings
import ScriptHost.Proofs.Json.Objects
import ScriptHost.Proofs.Config.ReadBack
import ScriptHost.Proofs.Decimal.FixedWidth
import ScriptHost.Proofs.Time.Gregorian
import ScriptHost.Proofs.Time.Moments

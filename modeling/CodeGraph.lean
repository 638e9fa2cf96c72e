import CodeGraph.Cache.AgeSet
import CodeGraph.Cache.Disk
import CodeGraph.Cache.DiskIndex
import CodeGraph.Cache.Key
import CodeGraph.Cache.Layered
import CodeGraph.Cache.Memory
import CodeGraph.Cache.Settings
import CodeGraph.CommandLine.Command
import CodeGraph.CommandLine.Options
import CodeGraph.CommandLine.Output
import CodeGraph.CommandLine.Program
import CodeGraph.Configuration.Basic
import CodeGraph.Configuration.Loader
import CodeGraph.Configuration.Rules
import CodeGraph.Decimal
import CodeGraph.Edge
import CodeGraph.Extension.Basic
import CodeGraph.Extension.Builtin
import CodeGraph.Extension.FileFacts
import CodeGraph.Extension.FileTree
import CodeGraph.Extension.TestLinks
import CodeGraph.Glob.Basic
import CodeGraph.Glob.Expression
import CodeGraph.Glob.Lookup
import CodeGraph.Glob.Reader
import CodeGraph.Graph.Basic
import CodeGraph.Graph.Builder
import CodeGraph.Graph.Cycles
import CodeGraph.Graph.Metadata
import CodeGraph.Identity
import CodeGraph.Ignore.Level
import CodeGraph.Ignore.Personal
import CodeGraph.Ignore.Rule
import CodeGraph.Json.Basic
import CodeGraph.Json.Break
import CodeGraph.Json.Decode
import CodeGraph.Json.Outline
import CodeGraph.Json.Printer
import CodeGraph.Main
import CodeGraph.NameMap
import CodeGraph.Node
import CodeGraph.Pattern.Basic
import CodeGraph.Pattern.CharSet
import CodeGraph.Pattern.Reader
import CodeGraph.Pattern.Search
import CodeGraph.Pattern.SetName
import CodeGraph.Pattern.Size
import CodeGraph.Pipeline.Basic
import CodeGraph.Pipeline.Report
import CodeGraph.Proofs.Cache.Accounting
import CodeGraph.Proofs.Cache.AnyDirectory
import CodeGraph.Proofs.Cache.Barriers
import CodeGraph.Proofs.Cache.Breakdown
import CodeGraph.Proofs.Cache.Clearing
import CodeGraph.Proofs.Cache.Content
import CodeGraph.Proofs.Cache.Elsewhere
import CodeGraph.Proofs.Cache.Entry
import CodeGraph.Proofs.Cache.Eviction
import CodeGraph.Proofs.Cache.FailedStores
import CodeGraph.Proofs.Cache.Files
import CodeGraph.Proofs.Cache.Foreign
import CodeGraph.Proofs.Cache.Frames
import CodeGraph.Proofs.Cache.Gone
import CodeGraph.Proofs.Cache.Index
import CodeGraph.Proofs.Cache.Interrupted
import CodeGraph.Proofs.Cache.Layered
import CodeGraph.Proofs.Cache.Lookups
import CodeGraph.Proofs.Cache.Lossless
import CodeGraph.Proofs.Cache.Memory
import CodeGraph.Proofs.Cache.Memory.Answers
import CodeGraph.Proofs.Cache.Memory.Conservation
import CodeGraph.Proofs.Cache.Memory.Eviction
import CodeGraph.Proofs.Cache.Memory.Lifetimes
import CodeGraph.Proofs.Cache.Memory.Order
import CodeGraph.Proofs.Cache.Memory.Purging
import CodeGraph.Proofs.Cache.Memory.Runs
import CodeGraph.Proofs.Cache.Orderly
import CodeGraph.Proofs.Cache.Orders
import CodeGraph.Proofs.Cache.Programs
import CodeGraph.Proofs.Cache.Recency
import CodeGraph.Proofs.Cache.Recovery
import CodeGraph.Proofs.Cache.Remnants
import CodeGraph.Proofs.Cache.Removing
import CodeGraph.Proofs.Cache.Reopening
import CodeGraph.Proofs.Cache.Repairing
import CodeGraph.Proofs.Cache.Replacing
import CodeGraph.Proofs.Cache.Runs
import CodeGraph.Proofs.Cache.Seeding
import CodeGraph.Proofs.Cache.Sessions
import CodeGraph.Proofs.Cache.Shelves
import CodeGraph.Proofs.Cache.Sparing
import CodeGraph.Proofs.Cache.Staged
import CodeGraph.Proofs.Cache.Strays
import CodeGraph.Proofs.Cache.Superseded
import CodeGraph.Proofs.Cache.Thinning
import CodeGraph.Proofs.Cache.Truthful
import CodeGraph.Proofs.Cache.Writing
import CodeGraph.Proofs.CommandLine.Building
import CodeGraph.Proofs.CommandLine.Rebuilding
import CodeGraph.Proofs.Configuration.Layers
import CodeGraph.Proofs.Configuration.Loading
import CodeGraph.Proofs.Configuration.Rereading
import CodeGraph.Proofs.Configuration.Saving
import CodeGraph.Proofs.Configuration.Settings
import CodeGraph.Proofs.Extension.Caching
import CodeGraph.Proofs.Extension.Facts
import CodeGraph.Proofs.Extension.Linking
import CodeGraph.Proofs.Extension.Parsing
import CodeGraph.Proofs.Extension.Rewalking
import CodeGraph.Proofs.Extension.Sharing
import CodeGraph.Proofs.Extension.Tree
import CodeGraph.Proofs.Extension.Walks
import CodeGraph.Proofs.Graph.Adjacency
import CodeGraph.Proofs.Graph.Building
import CodeGraph.Proofs.Graph.Cycles
import CodeGraph.Proofs.Graph.Documents
import CodeGraph.Proofs.Graph.MetadataViews
import CodeGraph.Proofs.Graph.Queries
import CodeGraph.Proofs.Graph.Replay
import CodeGraph.Proofs.Graph.Rereading
import CodeGraph.Proofs.Identity
import CodeGraph.Proofs.Ignore.Rereading
import CodeGraph.Proofs.Json.Doubles
import CodeGraph.Proofs.Json.Records
import CodeGraph.Proofs.Json.Rereading
import CodeGraph.Proofs.Json.RoundTrip
import CodeGraph.Proofs.Json.Skipping
import CodeGraph.Proofs.Json.Tokens
import CodeGraph.Proofs.NameMap
import CodeGraph.Proofs.Pipeline.Accounts
import CodeGraph.Proofs.Pipeline.Concurrency
import CodeGraph.Proofs.Pipeline.Course
import CodeGraph.Proofs.Pipeline.Isolation
import CodeGraph.Proofs.Pipeline.Latest
import CodeGraph.Proofs.Pipeline.Merge
import CodeGraph.Proofs.Pipeline.Repeated
import CodeGraph.Proofs.Pipeline.Watching
import CodeGraph.Proofs.Repository.Agreement
import CodeGraph.Proofs.Repository.Alike
import CodeGraph.Proofs.Repository.Confinement
import CodeGraph.Proofs.Repository.Contents
import CodeGraph.Proofs.Repository.Damage
import CodeGraph.Proofs.Repository.FailedSaves
import CodeGraph.Proofs.Repository.Metadata
import CodeGraph.Proofs.Repository.Operations
import CodeGraph.Proofs.Repository.Order
import CodeGraph.Proofs.Repository.Persistence
import CodeGraph.Proofs.Repository.Saving
import CodeGraph.Proofs.Repository.Sparing
import CodeGraph.Proofs.Toml.Definitions
import CodeGraph.Proofs.Toml.Layering
import CodeGraph.Proofs.Toml.Merging
import CodeGraph.Proofs.Toml.Ordering
import CodeGraph.Proofs.Toml.Ordinary
import CodeGraph.Proofs.Toml.Reading
import CodeGraph.Proofs.Toml.Records
import CodeGraph.Proofs.Volume.Items
import CodeGraph.Proofs.Volume.Lookup
import CodeGraph.Proofs.Volume.Making
import CodeGraph.Proofs.Volume.Missing
import CodeGraph.Proofs.Volume.Places
import CodeGraph.Proofs.Volume.Programs
import CodeGraph.Proofs.Volume.Publishing
import CodeGraph.Proofs.Volume.Relisted
import CodeGraph.Proofs.Volume.Spared
import CodeGraph.Proofs.Volume.Spelling
import CodeGraph.Proofs.Volume.Standing
import CodeGraph.Proofs.Volume.Straight
import CodeGraph.Proofs.Volume.Unlinked
import CodeGraph.Proofs.Volume.Walk
import CodeGraph.Proofs.Volume.Written
import CodeGraph.Provenance
import CodeGraph.Query
import CodeGraph.Repository.Basic
import CodeGraph.Repository.Files
import CodeGraph.Repository.Store
import CodeGraph.Sha256
import CodeGraph.Text.Age
import CodeGraph.Text.Basic
import CodeGraph.Text.Break
import CodeGraph.Text.Case
import CodeGraph.Text.Category
import CodeGraph.Text.CodeTable
import CodeGraph.Text.Glyph
import CodeGraph.Text.Letter
import CodeGraph.Text.Property
import CodeGraph.Text.Quoted
import CodeGraph.Text.Script
import CodeGraph.Toml.Basic
import CodeGraph.Toml.Decode
import CodeGraph.Toml.Definition
import CodeGraph.Toml.Moment
import CodeGraph.Toml.Printer
import CodeGraph.Toml.Reader
import CodeGraph.Vocabulary
import CodeGraph.Volume.Access
import CodeGraph.Volume.Basic
import CodeGraph.Volume.Listing
import CodeGraph.Volume.Path

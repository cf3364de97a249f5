import TransformCache.Cache.Entry
import TransformCache.Cache.Session
import TransformCache.Cache.Store
import TransformCache.CacheKey
import TransformCache.Cli.Arguments
import TransformCache.Cli.Run
import TransformCache.CommandEngine
import TransformCache.Config
import TransformCache.Digest.Blake3
import TransformCache.Engine
import TransformCache.Environment
import TransformCache.Error
import TransformCache.FilePath.Basic
import TransformCache.FilePath.Relative
import TransformCache.FileSystem
import TransformCache.Filter
import TransformCache.Glob.Match
import TransformCache.Glob.Pattern
import TransformCache.Hook
import TransformCache.Invalidation
import TransformCache.Json.Fault
import TransformCache.Json.Parser
import TransformCache.Json.Printer
import TransformCache.Json.Scalar
import TransformCache.Json.Value
import TransformCache.Keyed
import TransformCache.Number.Binary64
import TransformCache.Number.Shortest
import TransformCache.Options.Engine
import TransformCache.Options.Register
import TransformCache.Program.Basic
import TransformCache.Program.Script
import TransformCache.Program.Shell
import TransformCache.Program.Small
import TransformCache.Program.Tool
import TransformCache.Register
import TransformCache.SourceMaps
import TransformCache.Text.Blank
import TransformCache.Text.Printable
import TransformCache.Text.Quoted
import TransformCache.Text.Utf8
import TransformCache.Turn
import TransformCache.Turn.Delay
import TransformCache.World
import TransformCache.Proofs.Interception
import TransformCache.Proofs.FilePath
import TransformCache.Proofs.FileSystem
import TransformCache.Proofs.FileSystem.Trail
import TransformCache.Proofs.Turn
import TransformCache.Proofs.Turn.Order
import TransformCache.Proofs.Cache.Flush
import TransformCache.Proofs.Cache.Coalescing
import TransformCache.Proofs.Json.Layout
import TransformCache.Proofs.Json.Scalar
import TransformCache.Proofs.Json.Numeral
import TransformCache.Proofs.Json.RoundTrip
import TransformCache.Proofs.Json.Extent
import TransformCache.Proofs.Cache.StoreFile
import TransformCache.Proofs.CacheKey
import TransformCache.Proofs.CacheKey.Tail
import TransformCache.Proofs.Cache.Vouched
import TransformCache.Proofs.Register.Calls
import TransformCache.Proofs.Register.Genuine
import TransformCache.Proofs.Register.Transparency
import TransformCache.Proofs.Register.Inline
import TransformCache.Proofs.Register.Compile
import TransformCache.Proofs.Register.Hooks
import TransformCache.Proofs.Register.Teardown
import TransformCache.Proofs.Register.Life
import TransformCache.Proofs.Register.Deed
import TransformCache.Proofs.Cli.SourceRoot
import TransformCache.Proofs.World
import TransformCache.Proofs.Register.Recordings
import TransformCache.Proofs.Register.Delegation
import TransformCache.Proofs.Register.Separation
import TransformCache.Proofs.Register.Persistence
import TransformCache.Proofs.Config
import TransformCache.Proofs.FilePath.Moves
import TransformCache.Proofs.FilePath.Resolution
import TransformCache.Proofs.CacheKey.Relocation
import TransformCache.Proofs.Register.Failure
import TransformCache.Proofs.Register.Refusal
import TransformCache.Proofs.Register.Interleaving
import TransformCache.Proofs.Cache.Hindrance
import TransformCache.Proofs.Cache.Snapshot
import TransformCache.Proofs.Register.SourceMaps
import TransformCache.Proofs.Register.Disabling
import TransformCache.Proofs.Json.Bounds
import TransformCache.Proofs.Json.Members
import TransformCache.Proofs.Json.Shapes
import TransformCache.Proofs.Json.Settle
import TransformCache.Proofs.Json.Levels
import TransformCache.Proofs.Json.Fields
import TransformCache.Proofs.Cache.Entry
import TransformCache.Proofs.Cache.Loading
import TransformCache.Proofs.Options
import TransformCache.Proofs.Options.RoundTrip
import TransformCache.Proofs.Filter
import TransformCache.Proofs.Utf8.Replacement
import TransformCache.Proofs.Invalidation
import TransformCache.Proofs.Cache.Contents
import TransformCache.Proofs.Cache.Saving
import TransformCache.Proofs.Cache.Disabled
import TransformCache.Proofs.Cli.Loading
import TransformCache.Proofs.Cli.Progress
import TransformCache.Proofs.CacheKey.Identity
import TransformCache.Proofs.CacheKey.Places
import TransformCache.Proofs.Cli.SecondRun

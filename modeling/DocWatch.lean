import DocWatch.Archive.Extract
import DocWatch.Archive.Feed
import DocWatch.Archive.Gzip
import DocWatch.Archive.Huffman
import DocWatch.Archive.Inflate
import DocWatch.Archive.Path
import DocWatch.Archive.Tar
import DocWatch.Baseline
import DocWatch.Binary64.Basic
import DocWatch.Binary64.Reading
import DocWatch.Binary64.Rounding
import DocWatch.Binary64.Written
import DocWatch.Chunk.Paragraph
import DocWatch.Chunk.Segment
import DocWatch.Command.Arguments
import DocWatch.Command.Course
import DocWatch.Command.Report
import DocWatch.Command.Serve
import DocWatch.Config.Basic
import DocWatch.Config.Level
import DocWatch.Digest
import DocWatch.Fault
import DocWatch.Index.Basic
import DocWatch.Index.Edit
import DocWatch.Index.Score
import DocWatch.Index.Search
import DocWatch.Index.Snippet
import DocWatch.Index.Token
import DocWatch.Json.Basic
import DocWatch.Json.Printer
import DocWatch.Json.Reader
import DocWatch.Log
import DocWatch.Main
import DocWatch.Mcp.Bridge
import DocWatch.Mcp.Request
import DocWatch.Mcp.Resource
import DocWatch.Metrics.Basic
import DocWatch.Metrics.Histogram
import DocWatch.Net.Host
import DocWatch.Net.MediaType
import DocWatch.Net.Percent
import DocWatch.Net.Transport
import DocWatch.Net.Unreachable
import DocWatch.Net.Url
import DocWatch.Published
import DocWatch.Remote.Download
import DocWatch.Remote.Listing
import DocWatch.Remote.Refs
import DocWatch.Series.Question
import DocWatch.Series.Reply
import DocWatch.Server.ErrorKind
import DocWatch.Server.Http
import DocWatch.Service
import DocWatch.Snapshot
import DocWatch.Table
import DocWatch.Text.Alphanumeric
import DocWatch.Text.Blank
import DocWatch.Text.CodeRange
import DocWatch.Text.Digits
import DocWatch.Text.Lowercase
import DocWatch.Text.Occurrence
import DocWatch.Text.Printable
import DocWatch.Text.Quoted
import DocWatch.Text.Utf8
import DocWatch.Time.Instant
import DocWatch.Time.Span
import DocWatch.Time.Timestamp
import DocWatch.Toml.Basic
import DocWatch.Toml.Reader
import DocWatch.Toml.Scalar
import DocWatch.Tool.Basic
import DocWatch.Tool.Documents
import DocWatch.Tool.Queries
import DocWatch.Tool.Registry
import DocWatch.Tree
import DocWatch.Update.Scenario
import DocWatch.Update.System
import DocWatch.Version
import DocWatch.Proofs.Update.Moves
import DocWatch.Proofs.Update.Publication
import DocWatch.Proofs.Update.Runs
import DocWatch.Proofs.Update.Turns
import DocWatch.Proofs.Update.Succession
import DocWatch.Proofs.Update.Origin
import DocWatch.Proofs.Update.Cancellation
import DocWatch.Proofs.Update.Requests
import DocWatch.Proofs.Update.Concurrent
import DocWatch.Proofs.Archive.Acceptance
import DocWatch.Proofs.Table
import DocWatch.Proofs.Rows
import DocWatch.Proofs.Tree
import DocWatch.Proofs.Archive.Confinement
import DocWatch.Proofs.Archive.Extraction
import DocWatch.Proofs.Archive.Stored
import DocWatch.Proofs.Archive.Account
import DocWatch.Proofs.Archive.Bounds
import DocWatch.Proofs.Archive.Documents
import DocWatch.Proofs.Archive.Bits
import DocWatch.Proofs.Archive.Decoding
import DocWatch.Proofs.Archive.Decompression
import DocWatch.Proofs.Archive.Interruption
import DocWatch.Proofs.Archive.Causes
import DocWatch.Proofs.Update.Aborts
import DocWatch.Proofs.Text.Infix
import DocWatch.Proofs.Text.Quoted
import DocWatch.Proofs.Text.Trim
import DocWatch.Proofs.Time.Span
import DocWatch.Proofs.Tool.Parameters
import DocWatch.Proofs.Server.ErrorKind
import DocWatch.Proofs.Service
import DocWatch.Proofs.Server.Calls
import DocWatch.Proofs.Server.Exchanges
import DocWatch.Proofs.Tool.Range
import DocWatch.Proofs.Net.Template
import DocWatch.Proofs.Net.Path
import DocWatch.Proofs.Mcp.Documents
import DocWatch.Proofs.Chunk.Layout
import DocWatch.Proofs.Chunk.Contents
import DocWatch.Proofs.Index.Terms
import DocWatch.Proofs.Chunk.Cutting
import DocWatch.Proofs.Text.Run
import DocWatch.Proofs.Chunk.Words
import DocWatch.Proofs.Index.Edit
import DocWatch.Proofs.Index.Matching
import DocWatch.Proofs.Index.Postings
import DocWatch.Proofs.Index.Scores
import DocWatch.Proofs.Index.Retrieval
import DocWatch.Proofs.Index.Relevance
import DocWatch.Proofs.Index.Ranking
import DocWatch.Proofs.Index.Hashed
import DocWatch.Proofs.Snapshot
import DocWatch.Proofs.Readers.Program
import DocWatch.Proofs.Readers.World
import DocWatch.Proofs.Tool.Reading
import DocWatch.Proofs.Remote.Refs
import DocWatch.Proofs.Update.Fallback
import DocWatch.Proofs.Binary64.Rounding
import DocWatch.Proofs.Update.Meters
import DocWatch.Proofs.Update.Periodic
import DocWatch.Proofs.Update.Scenario
import DocWatch.Proofs.Text.Utf8
import DocWatch.Proofs.Snapshot.Fingerprint
import DocWatch.Proofs.Snapshot.Views
import DocWatch.Proofs.Archive.Roots
import DocWatch.Proofs.Server.Upstream
import DocWatch.Proofs.Text.Digits
import DocWatch.Proofs.Binary64.Reading
import DocWatch.Proofs.Binary64.Decimal
import DocWatch.Proofs.Binary64.Shortest
import DocWatch.Proofs.Time.Components
import DocWatch.Proofs.Time.Timestamp
import DocWatch.Proofs.Tool.Timestamps
import DocWatch.Proofs.Tool.Step
import DocWatch.Proofs.Traffic.Requests
import DocWatch.Proofs.Traffic.Meters
import DocWatch.Proofs.History
import DocWatch.Proofs.Remote.Download
import DocWatch.Proofs.Text.Lines
import DocWatch.Proofs.Remote.Entries
import DocWatch.Proofs.Chunk.Offsets
import DocWatch.Proofs.Chunk.Shape
import DocWatch.Proofs.Chunk.Blocks
import DocWatch.Proofs.Chunk.Headings
import DocWatch.Proofs.Chunk.Packing
import DocWatch.Proofs.Chunk.Terms
import DocWatch.Proofs.Index.Snippet
import DocWatch.Proofs.Json.Literal
import DocWatch.Proofs.Tool.Searching
import DocWatch.Proofs.Index.Distance
import DocWatch.Proofs.Tree.Insertions
import DocWatch.Proofs.Index.Normal
import DocWatch.Proofs.Index.Counted
import DocWatch.Proofs.Binary64.Crossing
import DocWatch.Proofs.Time.Elapsed
import DocWatch.Proofs.Time.Representable
import DocWatch.Proofs.Tool.DefaultStep

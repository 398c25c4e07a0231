import Ninfer.Acquire.Address
import Ninfer.Acquire.Base64
import Ninfer.Acquire.Bytes
import Ninfer.Acquire.Fetch
import Ninfer.Artifact.Binder
import Ninfer.Artifact.Container
import Ninfer.Artifact.Coverage
import Ninfer.Artifact.Directory
import Ninfer.Artifact.Layouts
import Ninfer.Artifact.Materialized
import Ninfer.Artifact.Materializer
import Ninfer.Artifact.Migration
import Ninfer.Artifact.Reader
import Ninfer.Artifact.Recovery
import Ninfer.Artifact.Rewriting
import Ninfer.Artifact.RoundTrip
import Ninfer.Artifact.RowSplit
import Ninfer.Artifact.RowSplitCodes
import Ninfer.Artifact.RowSplitRoundTrip
import Ninfer.Artifact.ScaledLayouts
import Ninfer.Artifact.Sizes
import Ninfer.Artifact.Staged
import Ninfer.Artifact.StorageLayouts
import Ninfer.Artifact.TensorWords
import Ninfer.Artifact.Uploading
import Ninfer.Chat.Boundary
import Ninfer.Chat.Checkpoint
import Ninfer.Chat.Placeholders
import Ninfer.Chat.Template
import Ninfer.Commons.Align
import Ninfer.Commons.BitStream
import Ninfer.Commons.BitString
import Ninfer.Commons.Bitonic
import Ninfer.Commons.Call
import Ninfer.Commons.Check
import Ninfer.Commons.Chunks
import Ninfer.Commons.Crash
import Ninfer.Commons.History
import Ninfer.Commons.Json
import Ninfer.Commons.Ledger
import Ninfer.Commons.LowerBound
import Ninfer.Commons.Marks
import Ninfer.Commons.Ranges
import Ninfer.Commons.Refs
import Ninfer.Commons.Regex
import Ninfer.Commons.Scopes
import Ninfer.Commons.Search
import Ninfer.Commons.Splice
import Ninfer.Commons.Staging
import Ninfer.Commons.Table
import Ninfer.Commons.Tensor
import Ninfer.Commons.Thread
import Ninfer.Commons.TopK
import Ninfer.Commons.Utf8
import Ninfer.Commons.Word
import Ninfer.Core.Arena
import Ninfer.Core.Layout
import Ninfer.Core.Planning
import Ninfer.Core.Regions
import Ninfer.Core.Workspace
import Ninfer.Executor.Actions
import Ninfer.Executor.Admission
import Ninfer.Executor.Admit
import Ninfer.Executor.Alternation
import Ninfer.Executor.Completion
import Ninfer.Executor.Donors
import Ninfer.Executor.Frames
import Ninfer.Executor.Handover
import Ninfer.Executor.Invariant
import Ninfer.Executor.Loop
import Ninfer.Executor.Ownership
import Ninfer.Executor.Progress
import Ninfer.Executor.Runs
import Ninfer.Executor.State
import Ninfer.Executor.System
import Ninfer.Executor.Trace
import Ninfer.Executor.Units
import Ninfer.Executor.Worker
import Ninfer.Frontend.EncodedChat
import Ninfer.Media.Actions
import Ninfer.Media.Cache
import Ninfer.Media.Invariant
import Ninfer.Media.Isolation
import Ninfer.Media.Lifetimes
import Ninfer.Media.Processor
import Ninfer.Media.Progress
import Ninfer.Media.Runs
import Ninfer.Output.Buffers
import Ninfer.Output.Decisions
import Ninfer.Output.Decoder
import Ninfer.Output.Feeding
import Ninfer.Output.Histories
import Ninfer.Output.Publishing
import Ninfer.Output.Reference
import Ninfer.Output.Scanning
import Ninfer.Output.Session
import Ninfer.Output.Streaming
import Ninfer.PagedKV.Bundle
import Ninfer.PagedKV.Heap
import Ninfer.PagedKV.Invariant
import Ninfer.PagedKV.Operations
import Ninfer.PagedKV.Pool
import Ninfer.PagedKV.Runs
import Ninfer.PagedKV.Taking
import Ninfer.Qwen.Admission
import Ninfer.Qwen.Advancing
import Ninfer.Qwen.Affine
import Ninfer.Qwen.BackendPool
import Ninfer.Qwen.Capacity
import Ninfer.Qwen.Chunks
import Ninfer.Qwen.Committing
import Ninfer.Qwen.Continuing
import Ninfer.Qwen.Decode
import Ninfer.Qwen.Generated
import Ninfer.Qwen.Generation
import Ninfer.Qwen.GraphProfiles
import Ninfer.Qwen.Greatest
import Ninfer.Qwen.Identity
import Ninfer.Qwen.Invariant
import Ninfer.Qwen.Lane
import Ninfer.Qwen.Layouts
import Ninfer.Qwen.MtpAlignment
import Ninfer.Qwen.Plan
import Ninfer.Qwen.Positions
import Ninfer.Qwen.Prefill
import Ninfer.Qwen.Program
import Ninfer.Qwen.Promises
import Ninfer.Qwen.Prompt
import Ninfer.Qwen.Resident
import Ninfer.Qwen.Resolving
import Ninfer.Qwen.Reuse
import Ninfer.Qwen.Rounds
import Ninfer.Qwen.Runs
import Ninfer.Qwen.Safety
import Ninfer.Qwen.SequenceKV
import Ninfer.Qwen.Service
import Ninfer.Qwen.Staging
import Ninfer.Qwen.System
import Ninfer.Qwen.Tiling
import Ninfer.Qwen.Vision
import Ninfer.Sampling.Blocks
import Ninfer.Sampling.Candidates
import Ninfer.Sampling.Groups
import Ninfer.Sampling.Lossless
import Ninfer.Sampling.Rounds
import Ninfer.Sampling.Routes
import Ninfer.Sampling.Support
import Ninfer.Serve.Filtering
import Ninfer.Serve.Grammar
import Ninfer.Serve.ResponseStore
import Ninfer.Serve.RoundTrip
import Ninfer.Serve.StoreBytes
import Ninfer.Serve.StoreRuns
import Ninfer.Serve.Stored
import Ninfer.Serve.ToolCalls
import Ninfer.Tokenizer.Codepoints
import Ninfer.Tokenizer.Contractions
import Ninfer.Tokenizer.Encoding
import Ninfer.Tokenizer.Resources
import Ninfer.Tokenizer.RoundTrip
import Ninfer.Tokenizer.Scan
import Ninfer.Tokenizer.Segments
import Ninfer.Tokenizer.Symbols
import Ninfer.Tokenizer.Tables
import Ninfer.Tokenizer.WordRegex
import Ninfer.Tokenizer.Words

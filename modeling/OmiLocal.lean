import OmiLocal.Lib.Transition
import OmiLocal.Lib.Json
import OmiLocal.Lib.Framing
import OmiLocal.Lib.Suffix
import OmiLocal.Lib.Text
import OmiLocal.Lib.Decimal
import OmiLocal.Lib.Matching
import OmiLocal.Lib.Dict
import OmiLocal.Lib.Fallible
import OmiLocal.Lib.Bisect
import OmiLocal.Lib.Values
import OmiLocal.Lib.Tally
import OmiLocal.Lib.Window
import OmiLocal.Lib.Blocks
import OmiLocal.Lib.Drains
import OmiLocal.Capture.Opus
import OmiLocal.Capture.Journal
import OmiLocal.Capture.Outbox
import OmiLocal.Capture.Ledger
import OmiLocal.Capture.Invariant
import OmiLocal.Capture.Jobs
import OmiLocal.Capture.Actions
import OmiLocal.Capture.Progress
import OmiLocal.Capture.Quota
import OmiLocal.Delivery.Part
import OmiLocal.Delivery.PhonePart
import OmiLocal.Delivery.Store
import OmiLocal.Delivery.EndToEnd
import OmiLocal.Delivery.Acceptance
import OmiLocal.Offline.AudioCapture
import OmiLocal.Offline.CrashRecovery
import OmiLocal.Wals.StorageSync
import OmiLocal.Wals.StorageInvariant
import OmiLocal.Translation.Live
import OmiLocal.Providers.Profile
import OmiLocal.Providers.Engine
import OmiLocal.Providers.Registry
import OmiLocal.Providers.Credentials
import OmiLocal.Providers.Atomicity
import OmiLocal.Pipeline.Transcript
import OmiLocal.Pipeline.Voices
import OmiLocal.Pipeline.Summaries
import OmiLocal.Pipeline.WatchQueue
import OmiLocal.Pipeline.WatchInvariant
import OmiLocal.Lib.Resumable
import OmiLocal.Pipeline.Execute
import OmiLocal.Pipeline.ExecuteInvariant
import OmiLocal.Pipeline.ExecuteProgress
import OmiLocal.Pipeline.ExecuteSummaries
import OmiLocal.Stt.VadGate
import OmiLocal.Stt.GateTimes
import OmiLocal.Stt.GateAudio
import OmiLocal.Stt.WallTimes
import OmiLocal.Stt.Segments
import OmiLocal.Stt.SegmentDelta
import OmiLocal.Stt.SegmentWords
import OmiLocal.Stt.LivePreview
import OmiLocal.Speakers.Assignment
import OmiLocal.Speakers.Optimality
import OmiLocal.Speakers.History
import OmiLocal.Sync.JobStore
import OmiLocal.Sync.TerminalJobs
import OmiLocal.Sync.Ledger
import OmiLocal.Sync.LedgerFence
import OmiLocal.Memory.Item
import OmiLocal.Memory.Promotion
import OmiLocal.Memory.Patch
import OmiLocal.Memory.Operation
import OmiLocal.Memory.Apply
import OmiLocal.Memory.Committed
import OmiLocal.Memory.CommitChain
import OmiLocal.Memory.Meaning
import OmiLocal.Wals.RingProtocol
import OmiLocal.Sync.Files
import OmiLocal.Wals.FrameFiles
import OmiLocal.Finalization.Jobs
import OmiLocal.Finalization.Transactions
import OmiLocal.Finalization.Runs
import OmiLocal.Finalization.Fencing
import OmiLocal.Finalization.Counters
import OmiLocal.Finalization.Sweeps
import OmiLocal.Finalization.SweepCoverage
import OmiLocal.Conversations.Merge
import OmiLocal.Conversations.MergeSafety
import OmiLocal.Pusher.Protocol
import OmiLocal.Pusher.Connection
import OmiLocal.Pusher.Accounting
import OmiLocal.Pusher.Attribution
import OmiLocal.Pusher.ChunkTimes
import OmiLocal.Pusher.Session
import OmiLocal.Pusher.Announcements
import OmiLocal.Pusher.Buffers
import OmiLocal.Pusher.BufferOrder
import OmiLocal.Pusher.Requests
import OmiLocal.Pusher.RequestSafety
import OmiLocal.Pusher.Replays
import OmiLocal.Translation.Coordinator
import OmiLocal.Translation.Freshness
import OmiLocal.Wals.PhoneWal
import OmiLocal.Wals.UploadDrain
import OmiLocal.Wals.ClaimSafety
import OmiLocal.Wals.PhoneFiles
import OmiLocal.Wals.FlushSafety
import OmiLocal.Speakers.Loops
import OmiLocal.Speakers.Snapshot
import OmiLocal.Speakers.Votes
import OmiLocal.Speakers.Relabel
import OmiLocal.Sync.Workers
import OmiLocal.Sync.Superseded
import OmiLocal.Sync.SegmentMerge
import OmiLocal.Sync.MergeLossless
import OmiLocal.Sync.VadSegments
import OmiLocal.Lib.Loop
import OmiLocal.Limitless.Wire
import OmiLocal.Limitless.Kotlin
import OmiLocal.Limitless.FlashDrain
import OmiLocal.Limitless.DrainSafety
import OmiLocal.Lib.Slices
import OmiLocal.Limitless.Encode
import OmiLocal.Limitless.PageRoundTrip
import OmiLocal.Limitless.Reassembly
import OmiLocal.Wals.ExternalWals
import OmiLocal.Wals.FlashPages
import OmiLocal.Wals.FlashPageSafety
import OmiLocal.Wals.SdCard
import OmiLocal.Wals.SdCardSafety
import OmiLocal.Wals.SdCardTimes
import OmiLocal.Wals.RingSync
import OmiLocal.Wals.RingSafety
import OmiLocal.Wals.RingDelivery
import OmiLocal.Lib.Chains
import OmiLocal.Lib.Canonical
import OmiLocal.Lib.Keyset
import OmiLocal.Memory.Visibility
import OmiLocal.Memory.Lineage
import OmiLocal.Memory.Listing
import OmiLocal.Memory.LineageViews
import OmiLocal.Memory.LineageQuotient
import OmiLocal.Memory.Historical
import OmiLocal.Memory.CursorStreams
import OmiLocal.Memory.CursorPages
import OmiLocal.Memory.PageSpec
import OmiLocal.Memory.AccountScans
import OmiLocal.Memory.CursorPaging
import OmiLocal.Memory.Admission
import OmiLocal.Memory.Supersession
import OmiLocal.Providers.Pinned
import OmiLocal.Providers.PinnedJobs
import OmiLocal.Memory.OutboxWorker
import OmiLocal.Memory.OutboxConvergence
import OmiLocal.Memory.OutboxLeases
import OmiLocal.Lib.Obligations
import OmiLocal.Wals.TransferCoordinator
import OmiLocal.Wals.TransferSafety
import OmiLocal.Wals.TransferRest
import OmiLocal.Mcp.Oauth
import OmiLocal.Mcp.OauthSafety
import OmiLocal.Mcp.OauthSweep
import OmiLocal.Memory.LegacyLedger
import OmiLocal.Memory.LedgerChain
import OmiLocal.Memory.LedgerPurge

import Kvgo.Lib.Runs
import Kvgo.Lib.Majority
import Kvgo.Lib.TermLog
import Kvgo.Lib.TermLogSteps
import Kvgo.Lib.Words
import Kvgo.Lib.Slices
import Kvgo.Lib.Writes
import Kvgo.Lib.Decimal
import Kvgo.Raft.Message
import Kvgo.Raft.Quorum
import Kvgo.Raft.VoteResult
import Kvgo.Raft.Storage
import Kvgo.Raft.Log
import Kvgo.Raft.ReadOnly
import Kvgo.Raft.Core
import Kvgo.Raft.Node
import Kvgo.Raft.Cluster
import Kvgo.Raft.LogView
import Kvgo.Raft.Acts
import Kvgo.Raft.CommitRule
import Kvgo.Raft.Ballot
import Kvgo.Raft.Work
import Kvgo.Raft.Inputs
import Kvgo.Raft.Steps
import Kvgo.Raft.Boot
import Kvgo.Raft.Votes
import Kvgo.Raft.PreVote
import Kvgo.Raft.Election
import Kvgo.Raft.KnownLeader
import Kvgo.Raft.Progress
import Kvgo.Raft.ReadQueue
import Kvgo.Raft.ReadRequests
import Kvgo.Raft.ReadAnswers
import Kvgo.Raft.ElectionSafety
import Kvgo.Raft.Replication
import Kvgo.Raft.Host
import Kvgo.Raft.StateMachine
import Kvgo.Raft.LogMatching
import Kvgo.Raft.MatchIndex
import Kvgo.Raft.Outputs
import Kvgo.Raft.LogShape
import Kvgo.Raft.Member
import Kvgo.Raft.Cursors
import Kvgo.Raft.Slots
import Kvgo.Raft.Delivery
import Kvgo.Raft.Durable
import Kvgo.Raft.Restart
import Kvgo.Raft.Replay
import Kvgo.Raft.Directory
import Kvgo.Raft.Recovery
import Kvgo.Raft.CrashPoints
import Kvgo.Raft.Representation
import Kvgo.Raft.SegmentDeletion
import Kvgo.Raft.FlatLog
import Kvgo.Raft.Codec
import Kvgo.Raft.FollowerLog
import Kvgo.Raft.Wal
import Kvgo.Raft.SaveFailure
import Kvgo.Raft.SegmentNames
import Kvgo.Raft.ReadOnlyCalls
import Kvgo.Transport.Frame
import Kvgo.Transport.Stream
import Kvgo.Transport.Multiplexed
import Kvgo.Transport.Routing
import Kvgo.Transport.Responses
import Kvgo.Engine.Shard
import Kvgo.Engine.IndexBytes
import Kvgo.Engine.ReadBack
import Kvgo.Engine.Compaction
import Kvgo.Engine.Reading
import Kvgo.Engine.IndexFile
import Kvgo.Engine.Crash
import Kvgo.Engine.Loading
import Kvgo.Engine.Cleanup
import Kvgo.Engine.CleanupData
import Kvgo.Engine.CleanupFailure
import Kvgo.Engine.CleanupLeftovers
import Kvgo.Engine.Database
import Kvgo.Engine.Committer
import Kvgo.Engine.Agreement
import Kvgo.Server.Envelope
import Kvgo.Protocol.Message
import Kvgo.Server.Waiters
import Kvgo.Server.Replicas
import Kvgo.Server.Dispatcher
import Kvgo.Server.ReadGate
import Kvgo.Transport.Peer
import Kvgo.Raft.ReadWatch
import Kvgo.Raft.ReadIndex
import Kvgo.Server.Service
import Kvgo.Engine.CompactionPolicy
import Kvgo.Raft.SnapshotFile

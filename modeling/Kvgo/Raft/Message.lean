import Mathlib

/-! The records of `raftpb` and the ways a step of the node can end other than
by returning: a returned error, or a panic that takes the process down. -/

namespace Kvgo

abbrev Bytes := List UInt8

def decr (x : Nat) : Nat := if x = 0 then 2 ^ 64 - 1 else x - 1

theorem decr_pos (x : Nat) (positive : 0 < x) : decr x = x - 1 := by
  rw [decr, if_neg (by omega)]

abbrev None : Nat := 0

structure Entry where
  index : Nat
  term : Nat
  data : Bytes
  deriving DecidableEq, Repr

structure SnapshotMeta where
  lastIncludedIndex : Nat := 0
  lastIncludedTerm : Nat := 0
  deriving DecidableEq, Repr

structure HardState where
  term : Nat := 0
  votedFor : Nat := 0
  committedIndex : Nat := 0
  deriving DecidableEq, Repr

def isEmptyHardState : Option HardState → Bool
  | none => true
  | some hard => hard.term == 0 && hard.votedFor == 0 && hard.committedIndex == 0

inductive MessageType where
  | msgUnknown
  | msgApp
  | msgAppResp
  | msgVote
  | msgVoteResp
  | msgSnap
  | msgHup
  | msgBeat
  | msgProp
  | msgHeartbeat
  | msgHeartbeatResp
  | msgReadIndex
  | msgReadIndexResp
  | msgCheckQuorum
  | msgPreVote
  | msgPreVoteResp
  | msgTransferLeader
  | msgTimeoutNow
  deriving DecidableEq, Repr

structure Message where
  type : MessageType := .msgUnknown
  fromId : Nat := 0
  toId : Nat := 0
  index : Nat := 0
  logTerm : Nat := 0
  term : Nat := 0
  commit : Nat := 0
  entries : List Entry := []
  reject : Bool := false
  rejectHint : Nat := 0
  snapshot : Option SnapshotMeta := none
  context : Bytes := []
  deriving DecidableEq, Repr

def isLocalMsg (type : MessageType) : Bool := type == .msgBeat || type == .msgHup

def afterAppend (type : MessageType) : Bool :=
  type == .msgAppResp || type == .msgVoteResp || type == .msgPreVoteResp

/-- The `panic` calls of the package, and the run-time panics of the language. -/
inductive Panic where
  /-- `appendEntries: after is before committed` -/
  | afterBeforeCommitted
  /-- `commitTo: index is out of range` -/
  | commitOutOfRange
  /-- `stepped empty MsgProp` -/
  | emptyProp
  /-- `term should be set when sending vote message` -/
  | voteWithoutTerm
  /-- `unexpected error getting term for last entry` -/
  | lastEntryTerm
  /-- `cannot find corresponding read state from pending map` -/
  | readStateMissing
  /-- `applied is greater than committed` -/
  | appliedBeyondCommitted
  /-- `applied is before the first log entry` -/
  | appliedCompacted
  /-- A configuration that `validate` refuses. -/
  | badConfig
  /-- A nil dereference, or an index or slice bound out of range. -/
  | runtime
  deriving DecidableEq, Repr

/-- The errors that `Step` returns to its caller. -/
inductive StepError where
  /-- `raft: proposal dropped` -/
  | proposalDropped
  /-- An append response from a node outside the tracker. -/
  | unknownPeer
  deriving DecidableEq, Repr

inductive StorageError where
  /-- `requested index is unavailable due to compaction` -/
  | compacted
  /-- `non-contiguous raftpb.Entry index` -/
  | nonContiguous
  /-- `requested snapshot is older than existing snapshot` -/
  | snapOutOfDate
  /-- `compact index is out of range` -/
  | compactOutOfRange
  /-- `requested index is not available` -/
  | notAvailable
  deriving DecidableEq, Repr

end Kvgo

import Kvgo.Lib.Runs
import Kvgo.Raft.Core

/-! What one call of `Step` can do. A call is a sequence of elementary acts, each a
few assignments of the source that belong together, with the guard under which
the source performs them. An invariant of the node needs one case for each act. -/

namespace Kvgo

namespace Raft

/-! The fields a role change keeps. -/

section Fields

variable (r : Raft) (term lead : Nat) (m : Message)

@[simp] theorem reset_id : (r.reset term).id = r.id := by
  simp only [reset, resetRandomizedElectionTimeout, draw, abortLeaderTransfer]; split <;> rfl

@[simp] theorem reset_term : (r.reset term).term = term := by
  simp only [reset, resetRandomizedElectionTimeout, draw, abortLeaderTransfer]
  split
  · rfl
  · rename_i same; simpa using same

@[simp] theorem reset_votedFor :
    (r.reset term).votedFor = if r.term ≠ term then None else r.votedFor := by
  simp only [reset, resetRandomizedElectionTimeout, draw, abortLeaderTransfer]; split <;> rfl

@[simp] theorem reset_state : (r.reset term).state = r.state := by
  simp only [reset, resetRandomizedElectionTimeout, draw, abortLeaderTransfer]; split <;> rfl

@[simp] theorem reset_raftLog : (r.reset term).raftLog = r.raftLog := by
  simp only [reset, resetRandomizedElectionTimeout, draw, abortLeaderTransfer]; split <;> rfl

@[simp] theorem reset_messages : (r.reset term).messages = r.messages := by
  simp only [reset, resetRandomizedElectionTimeout, draw, abortLeaderTransfer]; split <;> rfl

@[simp] theorem reset_msgsAfterAppend : (r.reset term).msgsAfterAppend = r.msgsAfterAppend := by
  simp only [reset, resetRandomizedElectionTimeout, draw, abortLeaderTransfer]; split <;> rfl

@[simp] theorem reset_readStates : (r.reset term).readStates = r.readStates := by
  simp only [reset, resetRandomizedElectionTimeout, draw, abortLeaderTransfer]; split <;> rfl

@[simp] theorem reset_peers : (r.reset term).peers = r.peers := by
  simp only [reset, resetRandomizedElectionTimeout, draw, abortLeaderTransfer]; split <;> rfl

@[simp] theorem reset_trk :
    (r.reset term).trk = r.trk.resetVotes.visit (freshProgress r.id r.raftLog.lastIndex) := by
  simp only [reset, resetRandomizedElectionTimeout, draw, abortLeaderTransfer]; split <;> rfl

@[simp] theorem reset_readOnly : (r.reset term).readOnly = ReadOnly.newReadOnly := rfl

@[simp] theorem reset_pendingReadIndexRequests : (r.reset term).pendingReadIndexRequests = [] := rfl

@[simp] theorem becomeFollower_id : (r.becomeFollower term lead).id = r.id := by simp [becomeFollower]

@[simp] theorem becomeFollower_term : (r.becomeFollower term lead).term = term := by
  simp [becomeFollower]

@[simp] theorem becomeFollower_votedFor :
    (r.becomeFollower term lead).votedFor = if r.term ≠ term then None else r.votedFor := by
  simp [becomeFollower]

@[simp] theorem becomeFollower_state : (r.becomeFollower term lead).state = .follower := by
  simp [becomeFollower]

@[simp] theorem becomeFollower_raftLog : (r.becomeFollower term lead).raftLog = r.raftLog := by
  simp [becomeFollower]

@[simp] theorem becomeFollower_messages : (r.becomeFollower term lead).messages = r.messages := by
  simp [becomeFollower]

@[simp] theorem becomeFollower_msgsAfterAppend :
    (r.becomeFollower term lead).msgsAfterAppend = r.msgsAfterAppend := by simp [becomeFollower]

@[simp] theorem becomeFollower_readStates : (r.becomeFollower term lead).readStates = r.readStates := by
  simp [becomeFollower]

@[simp] theorem becomeFollower_peers : (r.becomeFollower term lead).peers = r.peers := by
  simp [becomeFollower]

@[simp] theorem becomeFollower_lead : (r.becomeFollower term lead).lead = lead := rfl

@[simp] theorem becomeFollower_trk : (r.becomeFollower term lead).trk =
    r.trk.resetVotes.visit (freshProgress r.id r.raftLog.lastIndex) := by simp [becomeFollower]

@[simp] theorem becomeFollower_readOnly :
    (r.becomeFollower term lead).readOnly = ReadOnly.newReadOnly := rfl

@[simp] theorem becomeFollower_pendingReadIndexRequests :
    (r.becomeFollower term lead).pendingReadIndexRequests = [] := rfl

end Fields

section Stamp

variable (r : Raft) (m : Message)

@[simp] theorem stamp_type : (r.stamp m).type = m.type := by
  unfold stamp; simp only; split <;> (split <;> rfl)
@[simp] theorem stamp_fromId :
    (r.stamp m).fromId = if m.fromId = None then r.id else m.fromId := by
  unfold stamp; simp only; split <;> (split <;> rfl)
@[simp] theorem stamp_toId : (r.stamp m).toId = m.toId := by
  unfold stamp; simp only; split <;> (split <;> rfl)
@[simp] theorem stamp_index : (r.stamp m).index = m.index := by
  unfold stamp; simp only; split <;> (split <;> rfl)
@[simp] theorem stamp_reject : (r.stamp m).reject = m.reject := by
  unfold stamp; simp only; split <;> (split <;> rfl)
@[simp] theorem stamp_context : (r.stamp m).context = m.context := by
  unfold stamp; simp only; split <;> (split <;> rfl)
@[simp] theorem acceptResp_type : (acceptResp m).type = .msgAppResp := by
  unfold acceptResp; split <;> rfl

end Stamp

/-! Answers to reads, in closed form. -/

def localAnswer (r : Raft) (req : Message × Nat) : Option ReadState :=
  if req.1.fromId = None ∨ req.1.fromId = r.id then some ⟨req.2, req.1.context⟩ else none

def remoteAnswer (r : Raft) (req : Message × Nat) : Option Message :=
  if req.1.fromId = None ∨ req.1.fromId = r.id then none
  else some (r.stamp
    { type := .msgReadIndexResp, toId := req.1.fromId, context := req.1.context, index := req.2 })

def answerAll (r : Raft) (reqs : List (Message × Nat)) : Raft :=
  { r with
    readStates := r.readStates ++ reqs.filterMap r.localAnswer
    messages := r.messages ++ reqs.filterMap r.remoteAnswer }

theorem respondReadIndexReq_eq (r : Raft) (m : Message) (readIndex : Nat) :
    r.respondReadIndexReq m readIndex = .ok (r.answerAll [(m, readIndex)]) := by
  by_cases own : m.fromId = None ∨ m.fromId = r.id
  · simp [respondReadIndexReq, answerAll, localAnswer, remoteAnswer, own]
  · simp [respondReadIndexReq, answerAll, localAnswer, remoteAnswer, own, send, isVoteMsg, enqueue,
      afterAppend, stamp]

theorem answerAll_answerAll (r : Raft) (first second : List (Message × Nat)) :
    (r.answerAll first).answerAll second = r.answerAll (first ++ second) := by
  simp only [answerAll, List.filterMap_append, List.append_assoc]
  congr 2

/-- `index` may read the node, as long as answers do not change what it reads. -/
theorem respond_foldlM {α : Type} (xs : List α) (req : α → Message) (index : Raft → α → Nat)
    (same : ∀ r reqs x, index (answerAll r reqs) x = index r x) (r : Raft) :
    xs.foldlM (fun r x => r.respondReadIndexReq (req x) (index r x)) r =
      .ok (r.answerAll (xs.map (fun x => (req x, index r x)))) := by
  induction xs generalizing r with
  | nil => simp [answerAll]; rfl
  | cons x xs ih =>
    rw [List.foldlM_cons, respondReadIndexReq_eq]
    show List.foldlM _ (r.answerAll _) xs = _
    simp only [ih, same, answerAll_answerAll]
    rfl

/-! The elementary acts. -/

/-- Two states that differ at most in timers, in the leader that is followed or
sought, and in which peers were heard from. -/
structure Soft (r r' : Raft) : Prop where
  id : r'.id = r.id
  term : r'.term = r.term
  state : r'.state = r.state
  raftLog : r'.raftLog = r.raftLog
  messages : r'.messages = r.messages
  msgsAfterAppend : r'.msgsAfterAppend = r.msgsAfterAppend
  voters : r'.trk.voters = r.trk.voters
  ids : r'.trk.ids = r.trk.ids
  votes : r'.trk.votes = r.trk.votes
  progress : ∀ id, (r'.trk.progress id).map (fun p => (p.matchIndex, p.nextIndex)) =
    (r.trk.progress id).map (fun p => (p.matchIndex, p.nextIndex))
  peers : r'.peers = r.peers
  votedFor : r'.votedFor = r.votedFor
  readStates : r'.readStates = r.readStates
  readOnly : r'.readOnly = r.readOnly
  pendingReadIndexRequests : r'.pendingReadIndexRequests = r.pendingReadIndexRequests

def isIdle (msg : Message) : Bool :=
  msg.type == .msgPreVote || msg.type == .msgPreVoteResp || msg.type == .msgTimeoutNow ||
    (msg.type == .msgVoteResp && msg.reject)

def voteRequest (r : Raft) (pid : Nat) (last : Nat × Nat) : Message :=
  { type := .msgVote, fromId := r.id, toId := pid, term := r.term, index := last.1, logTerm := last.2 }

def appendMsg (r : Raft) (target nextIndex prevTerm : Nat) (entries : List Entry) : Message :=
  { type := .msgApp, fromId := r.id, toId := target, term := r.term, index := decr nextIndex,
    logTerm := prevTerm, commit := r.raftLog.committed, entries }

def snapMsg (r : Raft) (target : Nat) : Message :=
  { type := .msgSnap, fromId := r.id, toId := target, term := r.term,
    snapshot := some r.raftLog.storage.snap }

def heartbeatMsg (r : Raft) (target : Nat) (pr : Progress) (ctx : Bytes) : Message :=
  { type := .msgHeartbeat, fromId := r.id, toId := target, term := r.term,
    commit := min pr.matchIndex r.raftLog.committed, context := ctx }

def ToPeer (m : Message) (r : Raft) (target : Nat) : Prop :=
  target ≠ r.id ∨ m.type = .msgHeartbeatResp ∧ target = m.fromId

/-- The messages a node that handles `m` may queue without any other effect. -/
inductive Emits (m : Message) (r : Raft) : Message → Prop
  | idle (msg : Message) (idle : isIdle msg = true) (sender : msg.fromId = r.id) : Emits m r msg
  | forward (role : r.state = .follower)
      (kind : m.type = .msgProp ∨ m.type = .msgReadIndex ∨ m.type = .msgTransferLeader) :
      Emits m r (r.stamp { m with toId := r.lead })
  | vote (pid : Nat) (last : Nat × Nat) (role : r.state = .candidate) (peer : pid ∈ r.peers)
      (id : r.raftLog.lastEntryID = .ok last) : Emits m r (r.voteRequest pid last)
  | snapshot (target : Nat) (role : r.state = .leader)
      (behind : (∃ p, r.trk.progress target = some p ∧ ToPeer m r target ∧
          r.raftLog.getTerm (decr p.nextIndex) = .ok none) ∨
        (m.type = .msgAppResp ∧ target = m.fromId ∧
          m.rejectHint < r.raftLog.storage.firstIndex - 1)) :
      Emits m r (r.snapMsg target)
  | heartbeat (target : Nat) (pr : Progress) (ctx : Bytes) (role : r.state = .leader)
      (other : target ≠ r.id) (tracked : r.trk.progress target = some pr)
      (origin : ctx = [] ∨ m.type = .msgReadIndex ∧ ctx = m.context) :
      Emits m r (r.heartbeatMsg target pr ctx)

def heeds (r : Raft) (m : Message) : Bool := decide (r.state ≠ .leader) || decide (r.term < m.term)

def refusal (r : Raft) (m : Message) : Message :=
  { type := .msgAppResp, fromId := r.id, toId := m.fromId, term := r.term, reject := true,
    index := m.index, rejectHint := r.raftLog.storage.snap.lastIncludedIndex }

/-- Why an append goes to `target`: the node was elected by this call, or it leads on and
has a new entry for all, or the target lags behind. No other message to the target
has been queued by the call. -/
structure Resends (r0 : Raft) (m : Message) (r : Raft) (target : Nat) (p : Progress) : Prop where
  first : ∀ msg ∈ r.messages, msg.toId = target → msg ∈ r0.messages
  reason : (r0.term < r.term ∨ r0.state = .candidate) ∧ p.matchIndex ≠ r.raftLog.lastIndex ∨
    (r0.state = .leader ∧ r0.term = r.term ∧
      ∃ p0, r0.trk.progress target = some p0 ∧ p0.matchIndex = p.matchIndex ∧
        p0.nextIndex = p.nextIndex) ∧
      (m.type = .msgProp ∧ r0.raftLog.lastIndex < r.raftLog.lastIndex ∨
        (m.type = .msgHeartbeatResp ∨ m.type = .msgTransferLeader) ∧ target = m.fromId ∧
          p.matchIndex ≠ r.raftLog.lastIndex)

/-- How the state that handles a leader's message comes from the state `r0` in which
`Step` was called: the log is untouched, and the term is that of the message
unless a follower handles a message of an older term. -/
structure Heard (r0 : Raft) (m : Message) (r : Raft) : Prop where
  heeds : r0.heeds m = true
  raftLog : r.raftLog = r0.raftLog
  term : r.term = m.term ∨ (r0.state = .follower ∧ r.term = r0.term)

/-- One act of `Step m`, called in state `r0`. -/
inductive Act (r0 : Raft) (m : Message) : Raft → Raft → Prop
  | soft {r r'} (same : Soft r r') : Act r0 m r r'
  | emit {r} (msg : Message) (sent : Emits m r msg) : Act r0 m r (r.enqueue msg)
  | resend {r} (target : Nat) (p : Progress) (prevTerm : Nat) (entries : List Entry)
      (role : r.state = .leader) (other : ToPeer m r target)
      (tracked : r.trk.progress target = some p) (why : Resends r0 m r target p)
      (prev : r.raftLog.getTerm (decr p.nextIndex) = .ok (some prevTerm))
      (slice : r.raftLog.slice p.nextIndex (r.raftLog.lastIndex + 1) = .ok entries) :
      Act r0 m r (r.enqueue (r.appendMsg target p.nextIndex prevTerm entries))
  /-- A message of a later term. -/
  | follow {r} (later : r.term < m.term)
      (kind : m.type ≠ .msgPreVote ∧ m.type ≠ .msgPreVoteResp) :
      Act r0 m r (r.becomeFollower m.term m.fromId)
  /-- A campaigning node hears from a leader. The source does not compare the terms here. -/
  | yield {r} (start : r = r0) (role : r.state = .preCandidate ∨ r.state = .candidate)
      (bound : m.term ≤ r.term)
      (kind : m.type = .msgApp ∨ m.type = .msgHeartbeat ∨ m.type = .msgSnap) :
      Act r0 m r (r.becomeFollower m.term m.fromId)
  | abdicate {r} : Act r0 m r (r.becomeFollower r.term None)
  | preCampaign {r} (role : r.state ≠ .leader) :
      Act r0 m r (r.becomePreCandidate.recordVote r.id true)
  | candidacy {r} (role : r.state ≠ .leader) :
      Act r0 m r (r.becomeCandidate.recordVote r.id true)
  | tally {r} (role : r.state = .preCandidate ∨ r.state = .candidate)
      (kind : m.type = r.voteRespType) (fresh : r.term ≤ m.term)
      (bound : m.type = .msgVoteResp → m.term ≤ r.term) :
      Act r0 m r (r.recordVote m.fromId (!m.reject))
  | lead {r led r'} (role : r.state = .candidate) (won : r.trk.tallyVotes = .voteWon)
      (taken : r.takeLead = .ok led) (appended : led.appendEntry [] = .ok r') : Act r0 m r r'
  | propose {r r'} (data : Bytes) (role : r.state = .leader)
      (appended : r.appendEntry data = .ok r') : Act r0 m r r'
  | grant {r} (kind : m.type = .msgVote) (granted : r.grants m = .ok true)
      (bound : m.term ≤ r.term) :
      Act r0 m r (({ r with votedFor := m.fromId } : Raft).enqueue
        { type := .msgVoteResp, fromId := r.id, toId := m.fromId, term := r.term })
  | accept {r} (appended committed : RaftLog) (heard : Heard r0 m r) (role : r.state = .follower)
      (kind : m.type = .msgApp) (bound : m.term ≤ r.term)
      (matched : r.raftLog.matchTerm m.index m.logTerm = .ok true)
      (append : r.raftLog.appendEntries m.entries (r.rng r.draws) = .ok appended)
      (commit : commitFromLeader appended m.commit = .ok committed) :
      Act r0 m r (({ r with draws := r.draws + 1, raftLog := committed } : Raft).enqueue
        (r.stamp (acceptResp m)))
  | refuse {r} (heard : Heard r0 m r) (role : r.state = .follower) (kind : m.type = .msgApp)
      (bound : m.term ≤ r.term) (unmatched : r.raftLog.matchTerm m.index m.logTerm = .ok false) :
      Act r0 m r (r.enqueue (r.refusal m))
  | beat {r} (raftLog : RaftLog) (heard : Heard r0 m r) (role : r.state = .follower)
      (kind : m.type = .msgHeartbeat) (bound : m.term ≤ r.term) (committed : r.raftLog.commitTo m.commit = .ok raftLog) :
      Act r0 m r (({ r with raftLog } : Raft).enqueue
        (r.stamp { type := .msgHeartbeatResp, toId := m.fromId, context := m.context }))
  | restore {r} (snap : SnapshotMeta) (storage : MemStorage) (heard : Heard r0 m r)
      (role : r.state = .follower)
      (kind : m.type = .msgSnap) (carried : m.snapshot = some snap)
      (applied : r.raftLog.storage.applySnapshot snap = (storage, none)) :
      Act r0 m r { r with
        raftLog := ({ r.raftLog with storage } : RaftLog).restore snap.lastIncludedIndex }
  | ack {r} (p : Progress) (role : r.state = .leader) (kind : m.type = .msgAppResp)
      (bound : m.term ≤ r.term) (tracked : r.trk.progress m.fromId = some p)
      (start : r0.state = .leader ∧ r0.term = r.term ∧
        ∃ p0, r0.trk.progress m.fromId = some p0 ∧ p0.nextIndex = p.nextIndex) :
      Act r0 m r (r.setProgress m.fromId (ackedProgress p m))
  | commit {r} (raftLog : RaftLog) (role : r.state = .leader)
      (current : r.raftLog.matchTerm r.trk.committed r.term = .ok true)
      (committed : r.raftLog.commitTo r.trk.committed = .ok raftLog) : Act r0 m r { r with raftLog }
  | drain {r} (role : r.state = .leader) :
      Act r0 m r (({ r with pendingReadIndexRequests := [] } : Raft).answerAll
        (r.pendingReadIndexRequests.map (·, r.raftLog.committed)))
  | readSingle {r} (role : r.state = .leader) (kind : m.type = .msgReadIndex)
      (single : r.trk.isSingleton = true) : Act r0 m r (r.answerAll [(m, r.raftLog.committed)])
  | queueRead {r} (start : r = r0) (role : r.state = .leader) (kind : m.type = .msgReadIndex)
      (current : r.committedEntryInCurrentTerm = .ok true) :
      Act r0 m r { r with
        readOnly := ((r.readOnly.addRequest r.raftLog.committed m).recvAck r.id m.context).1 }
  | holdRead {r} (start : r = r0) (role : r.state = .leader) (kind : m.type = .msgReadIndex)
      (current : r.committedEntryInCurrentTerm = .ok false) :
      Act r0 m r { r with pendingReadIndexRequests := r.pendingReadIndexRequests ++ [m] }
  | ackRead {r} (role : r.state = .leader) (kind : m.type = .msgHeartbeatResp)
      (bound : m.term ≤ r.term) (context : m.context ≠ []) :
      Act r0 m r { r with readOnly := (r.readOnly.recvAck m.fromId m.context).1 }
  /-- An ack that completes a quorum releases its request and all queued before it. -/
  | release {r} (readOnly : ReadOnly) (rss : List ReadIndexStatus) (role : r.state = .leader)
      (kind : m.type = .msgHeartbeatResp) (bound : m.term ≤ r.term) (context : m.context ≠ [])
      (won : r.trk.voters.voteResult (r.readOnly.recvAck m.fromId m.context).2 = .voteWon)
      (advanced : (r.readOnly.recvAck m.fromId m.context).1.advance m = .ok (readOnly, rss)) :
      Act r0 m r (({ r with readOnly } : Raft).answerAll (rss.map (fun rs => (rs.req, rs.index))))
  | noteRead {r} (role : r.state = .follower) (kind : m.type = .msgReadIndexResp) :
      Act r0 m r { r with readStates := r.readStates ++ [⟨m.index, m.context⟩] }

abbrev Acts (r0 : Raft) (m : Message) : Raft → Raft → Prop := Relation.ReflTransGen (Act r0 m)

variable {r0 : Raft}

/-! Sending. -/

section Enqueue

variable (r : Raft) (msg : Message)

@[simp] theorem enqueue_id : (r.enqueue msg).id = r.id := by unfold enqueue; split <;> rfl
@[simp] theorem enqueue_term : (r.enqueue msg).term = r.term := by unfold enqueue; split <;> rfl
@[simp] theorem enqueue_state : (r.enqueue msg).state = r.state := by unfold enqueue; split <;> rfl
@[simp] theorem enqueue_raftLog : (r.enqueue msg).raftLog = r.raftLog := by
  unfold enqueue; split <;> rfl
@[simp] theorem enqueue_trk : (r.enqueue msg).trk = r.trk := by unfold enqueue; split <;> rfl
@[simp] theorem enqueue_peers : (r.enqueue msg).peers = r.peers := by unfold enqueue; split <;> rfl
@[simp] theorem enqueue_votedFor : (r.enqueue msg).votedFor = r.votedFor := by
  unfold enqueue; split <;> rfl
@[simp] theorem enqueue_readStates : (r.enqueue msg).readStates = r.readStates := by
  unfold enqueue; split <;> rfl
@[simp] theorem enqueue_readOnly : (r.enqueue msg).readOnly = r.readOnly := by
  unfold enqueue; split <;> rfl
@[simp] theorem enqueue_pendingReadIndexRequests :
    (r.enqueue msg).pendingReadIndexRequests = r.pendingReadIndexRequests := by
  unfold enqueue; split <;> rfl

end Enqueue

theorem send_eq_ok {r r' : Raft} {msg : Message} (ok : r.send msg = .ok r') :
    r' = r.enqueue (r.stamp msg) := by
  unfold send at ok
  split at ok
  · cases ok
  · cases ok; rfl

theorem emit_acts {m : Message} {r : Raft} {msg : Message} (sent : Emits m r msg) :
    Acts r0 m r (r.enqueue msg) :=
  .single (.emit msg sent)

theorem soft_acts {m : Message} {r r' : Raft} (same : Soft r r') : Acts r0 m r r' :=
  .single (.soft same)

structure Kept (r r' : Raft) : Prop where
  id : r'.id = r.id
  term : r'.term = r.term
  state : r'.state = r.state
  raftLog : r'.raftLog = r.raftLog
  trk : r'.trk = r.trk
  peers : r'.peers = r.peers

@[refl] theorem Kept.refl (r : Raft) : Kept r r := by constructor <;> rfl

theorem kept_enqueue (r : Raft) (msg : Message) : Kept r (r.enqueue msg) := by
  constructor <;> simp

theorem Kept.trans {r r' r'' : Raft} (first : Kept r r') (second : Kept r' r'') : Kept r r'' where
  id := second.id.trans first.id
  term := second.term.trans first.term
  state := second.state.trans first.state
  raftLog := second.raftLog.trans first.raftLog
  trk := second.trk.trans first.trk
  peers := second.peers.trans first.peers

theorem sendAppend_acts {m : Message} {r r' : Raft} {target : Nat} (role : r.state = .leader)
    (other : ToPeer m r target)
    (why : ∀ p, r.trk.progress target = some p → Resends r0 m r target p)
    (ok : r.sendAppend target = .ok r') : Acts r0 m r r' ∧ Kept r r' := by
  unfold sendAppend at ok
  split at ok
  · cases ok
    exact ⟨.refl, .refl _⟩
  · rename_i p tracked
    obtain ⟨found, prev, ok⟩ := Outcome.bind_eq_ok.mp ok
    cases found with
    | none =>
      rw [send_eq_ok ok]
      exact ⟨emit_acts (.snapshot target role (.inl ⟨p, tracked, other, prev⟩)), kept_enqueue _ _⟩
    | some prevTerm =>
      obtain ⟨entries, slice, ok⟩ := Outcome.bind_eq_ok.mp ok
      rw [send_eq_ok ok]
      exact ⟨.single (.resend target p prevTerm entries role other tracked (why p tracked) prev slice),
        kept_enqueue _ _⟩

theorem sendHeartbeat_acts {m : Message} {r r' : Raft} {ctx : Bytes} {target : Nat}
    (role : r.state = .leader) (other : target ≠ r.id)
    (origin : ctx = [] ∨ m.type = .msgReadIndex ∧ ctx = m.context)
    (ok : r.sendHeartbeat ctx target = .ok r') : Acts r0 m r r' ∧ Kept r r' := by
  unfold sendHeartbeat at ok
  split at ok
  · cases ok
    exact ⟨.refl, .refl _⟩
  · rename_i pr tracked
    rw [send_eq_ok ok]
    exact ⟨emit_acts (.heartbeat target pr ctx role other tracked origin), kept_enqueue _ _⟩

theorem sendAppend_messages {r r' : Raft} {target : Nat} (ok : r.sendAppend target = .ok r')
    {msg : Message} (inside : msg ∈ r'.messages) : msg ∈ r.messages ∨ msg.toId = target := by
  have sent : ∀ new : Message, new.toId = target → msg ∈ (r.enqueue (r.stamp new)).messages →
      msg ∈ r.messages ∨ msg.toId = target := by
    intro new aimed here
    unfold enqueue at here
    split at here
    · exact .inl here
    · rcases List.mem_append.mp here with old | fresh
      · exact .inl old
      · rw [List.mem_singleton.mp fresh, stamp_toId]
        exact .inr aimed
  unfold sendAppend at ok
  split at ok
  · cases ok; exact .inl inside
  · obtain ⟨found, _, ok⟩ := Outcome.bind_eq_ok.mp ok
    cases found with
    | none =>
      rw [send_eq_ok ok] at inside
      exact sent _ rfl inside
    | some prevTerm =>
      obtain ⟨entries, _, ok⟩ := Outcome.bind_eq_ok.mp ok
      rw [send_eq_ok ok] at inside
      exact sent _ rfl inside

/-- The broadcast visits each node once. -/
theorem bcastAppend_fold {m : Message} {r : Raft} (role : r.state = .leader) {ids : List Nat}
    (nodup : ids.Nodup)
    (reason : ∀ s target p, Kept r s → target ≠ s.id → s.trk.progress target = some p →
      (∀ msg ∈ s.messages, msg.toId = target → msg ∈ r0.messages) → Resends r0 m s target p)
    {s s' : Raft} (kept : Kept r s)
    (queued : ∀ msg ∈ s.messages, msg ∈ r0.messages ∨ msg.toId ∉ ids)
    (ok : ids.foldlM (fun r id => if id = r.id then .ok r else r.sendAppend id) s = .ok s') :
    Acts r0 m s s' := by
  induction ids generalizing s with
  | nil => cases ok; exact .refl
  | cons id ids ih =>
    rw [List.foldlM_cons] at ok
    obtain ⟨s1, sent, rest⟩ := Outcome.bind_eq_ok.mp ok
    obtain ⟨new, nodup⟩ := List.nodup_cons.mp nodup
    split at sent
    · cases sent
      refine ih nodup kept (fun msg inside => (queued msg inside).imp_right ?_) rest
      exact fun outside later => outside (List.mem_cons_of_mem _ later)
    · rename_i other
      have first : ∀ msg ∈ s.messages, msg.toId = id → msg ∈ r0.messages := fun msg inside aimed =>
        (queued msg inside).resolve_right (fun outside => outside (by simp [aimed]))
      obtain ⟨acts, kept'⟩ : Acts r0 m s s1 ∧ Kept s s1 :=
        sendAppend_acts (kept.state.trans role) (.inl other)
          (fun p tracked => reason s id p kept other tracked first) sent
      refine acts.trans (ih nodup (kept.trans kept') (fun msg inside => ?_) rest)
      rcases sendAppend_messages sent inside with old | aimed
      · exact (queued msg old).imp_right (fun outside later => outside (List.mem_cons_of_mem _ later))
      · exact .inr (aimed ▸ new)

theorem bcastAppend_acts {m : Message} {r r' : Raft} (role : r.state = .leader)
    (queued : r.messages = r0.messages)
    (reason : ∀ s target p, Kept r s → target ≠ s.id → s.trk.progress target = some p →
      (∀ msg ∈ s.messages, msg.toId = target → msg ∈ r0.messages) → Resends r0 m s target p)
    (ok : r.bcastAppend = .ok r') : Acts r0 m r r' :=
  bcastAppend_fold role r.trk.nodup reason (.refl r) (fun _ inside => .inl (queued ▸ inside)) ok

theorem bcastHeartbeat_acts {m : Message} {r r' : Raft} {ctx : Bytes} (role : r.state = .leader)
    (origin : ctx = [] ∨ m.type = .msgReadIndex ∧ ctx = m.context)
    (ok : r.bcastHeartbeat ctx = .ok r') : Acts r0 m r r' := by
  refine (Outcome.foldlM_rel (fun s => s.state = .leader) (Act r0 m) ?_ role ok).2
  intro s id s' _ lead done
  split at done
  · cases done; exact ⟨lead, .refl⟩
  · rename_i other
    obtain ⟨acts, kept⟩ := sendHeartbeat_acts (m := m) lead other origin done
    exact ⟨kept.state.trans lead, acts⟩

theorem bcastVote_acts {m : Message} {r r' : Raft} (role : r.state = .candidate)
    (ok : r.bcastVote .msgVote r.term = .ok r') : Acts r0 m r r' := by
  obtain ⟨last, id, ok⟩ := Outcome.bind_eq_ok.mp ok
  refine (Outcome.foldlM_rel (Kept r) (Act r0 m) ?_ (.refl r) ok).2
  intro s pid s' peer kept done
  have request : Emits m s (s.voteRequest pid last) :=
    .vote pid last (kept.state.trans role) (kept.peers ▸ peer) (kept.raftLog ▸ id)
  rw [send_eq_ok done]
  refine ⟨kept.trans (kept_enqueue _ _), emit_acts ?_⟩
  convert request using 1
  simp [voteRequest, stamp, kept.term]

theorem bcastPreVote_acts {m : Message} {r r' : Raft} {term : Nat}
    (ok : r.bcastVote .msgPreVote term = .ok r') : Acts r0 m r r' := by
  obtain ⟨last, id, ok⟩ := Outcome.bind_eq_ok.mp ok
  refine (Outcome.foldlM_rel (fun _ => True) (Act r0 m) ?_ trivial ok).2
  intro s pid s' _ _ done
  rw [send_eq_ok done]
  exact ⟨trivial, emit_acts (.idle _ (by simp [stamp, isIdle]) (by simp [stamp]))⟩

/-! Campaigns. -/

@[simp] theorem recordVote_state (r : Raft) (id : Nat) (v : Bool) :
    (r.recordVote id v).state = r.state := rfl

@[simp] theorem becomeCandidate_state (r : Raft) : r.becomeCandidate.state = .candidate := by
  simp [becomeCandidate]

@[simp] theorem becomeCandidate_id (r : Raft) : r.becomeCandidate.id = r.id := by
  simp [becomeCandidate]

/-- A node that has just won its election and not yet appended anything. -/
structure TookLead (r led : Raft) : Prop where
  id : led.id = r.id
  term : led.term = r.term
  state : led.state = .leader
  votedFor : led.votedFor = r.votedFor
  raftLog : led.raftLog = r.raftLog
  messages : led.messages = r.messages
  msgsAfterAppend : led.msgsAfterAppend = r.msgsAfterAppend
  voters : led.trk.voters = r.trk.voters
  ids : led.trk.ids = r.trk.ids
  progress : ∀ q, (led.trk.progress q).map (fun p => (p.matchIndex, p.nextIndex)) =
    (r.trk.progress q).map
      (fun _ => (if q = r.id then r.raftLog.lastIndex else 0, r.raftLog.lastIndex + 1))
  peers : led.peers = r.peers
  readStates : led.readStates = r.readStates
  readOnly : led.readOnly = ReadOnly.newReadOnly
  pendingReadIndexRequests : led.pendingReadIndexRequests = []

theorem takeLead_spec {r led : Raft} (ok : r.takeLead = .ok led) : TookLead r led := by
  unfold takeLead at ok
  simp only at ok
  split at ok
  · cases ok
  rename_i pr tracked
  cases ok
  constructor <;> try simp
  intro q
  simp only [reset_trk, reset_id, ProgressTracker.visit, ProgressTracker.resetVotes_progress,
    ProgressTracker.setProgress] at tracked ⊢
  by_cases self : q = r.id
  · subst self
    obtain ⟨p, own, rfl⟩ := Option.map_eq_some_iff.mp tracked
    simp [own, freshProgress]
  · simp [freshProgress, self, Function.comp_def]

theorem TookLead.tracked {r led : Raft} (took : TookLead r led) {q : Nat} {p : Progress}
    (tracked : led.trk.progress q = some p) :
    p.matchIndex = (if q = r.id then r.raftLog.lastIndex else 0) ∧
      p.nextIndex = r.raftLog.lastIndex + 1 := by
  have same := took.progress q
  rw [tracked] at same
  obtain ⟨_, _, pair⟩ := Option.map_eq_some_iff.mp same.symm
  simp only [Prod.mk.injEq] at pair
  exact ⟨pair.1.symm, pair.2.symm⟩

def selfAck (r : Raft) (index : Nat) : Message :=
  { type := .msgAppResp, fromId := r.id, toId := r.id, term := r.term, index }

theorem appendEntry_eq {r r' : Raft} {data : Bytes} (ok : r.appendEntry data = .ok r') :
    ∃ raftLog, r.raftLog.appendEntries [⟨r.raftLog.lastIndex + 1, r.term, data⟩] (r.rng r.draws) =
        .ok raftLog ∧
      r' = ({ r with draws := r.draws + 1, raftLog } : Raft).enqueue (r.selfAck raftLog.lastIndex) := by
  obtain ⟨raftLog, appended, sent⟩ := Outcome.bind_eq_ok.mp ok
  exact ⟨raftLog, appended, send_eq_ok sent⟩

theorem appendEntry_state {r r' : Raft} {data : Bytes} (ok : r.appendEntry data = .ok r') :
    r'.state = r.state := by
  obtain ⟨raftLog, _, rfl⟩ := appendEntry_eq ok
  simp

theorem appendEntry_messages {r r' : Raft} {data : Bytes} (ok : r.appendEntry data = .ok r') :
    r'.messages = r.messages := by
  obtain ⟨raftLog, _, rfl⟩ := appendEntry_eq ok
  simp [enqueue, selfAck, afterAppend]

theorem appendEntry_lastIndex {r r' : Raft} {data : Bytes} (ok : r.appendEntry data = .ok r') :
    r'.raftLog.lastIndex = r.raftLog.lastIndex + 1 := by
  obtain ⟨raftLog, appended, rfl⟩ := appendEntry_eq ok
  simpa using RaftLog.appendEntries_lastIndex appended

theorem appendEntry_rest {r r' : Raft} {data : Bytes} (ok : r.appendEntry data = .ok r') :
    r'.id = r.id ∧ r'.term = r.term ∧ r'.trk = r.trk := by
  obtain ⟨raftLog, _, rfl⟩ := appendEntry_eq ok
  simp

/-- A call that gets the node elected: it stood before or has moved to a later term. -/
structure Rises (r0 r : Raft) : Prop where
  messages : r.messages = r0.messages
  since : r0.term < r.term ∨ r0.state = .candidate

theorem becomeLeader_acts {m : Message} {r r' : Raft} (role : r.state = .candidate)
    (rises : Rises r0 r) (won : r.trk.tallyVotes = .voteWon) (ok : r.becomeLeader = .ok r') :
    Acts r0 m r r' := by
  obtain ⟨led, taken, ok⟩ := Outcome.bind_eq_ok.mp ok
  obtain ⟨noop, appended, ok⟩ := Outcome.bind_eq_ok.mp ok
  have took := takeLead_spec taken
  have leader : noop.state = .leader := (appendEntry_state appended).trans took.state
  obtain ⟨id, term, trk⟩ := appendEntry_rest appended
  refine .head (.lead role won taken appended) (bcastAppend_acts leader ?_ ?_ ok)
  · rw [appendEntry_messages appended, took.messages, rises.messages]
  · intro s target p kept other tracked first
    refine ⟨first, .inl ⟨?_, ?_⟩⟩
    · rw [kept.term, term, took.term]; exact rises.since
    · -- a peer of a new leader has acknowledged nothing, and the log is not empty
      rw [kept.trk, trk] at tracked
      rw [(took.tracked tracked).1, if_neg (by rwa [← took.id, ← id, ← kept.id]), kept.raftLog,
        appendEntry_lastIndex appended]
      omega

@[simp] theorem becomeCandidate_term (r : Raft) : r.becomeCandidate.term = r.term + 1 := by
  simp [becomeCandidate]

@[simp] theorem becomeCandidate_messages (r : Raft) : r.becomeCandidate.messages = r.messages := by
  simp [becomeCandidate]

theorem hupElection_acts {m : Message} {r r' : Raft} (queued : r.messages = r0.messages)
    (order : r0.term ≤ r.term) (ok : r.hupElection = .ok r') : Acts r0 m r r' := by
  unfold hupElection at ok
  split at ok
  · cases ok; exact .refl
  · rename_i role
    have stand : Act r0 m r (r.becomeCandidate.recordVote r.id true) := .candidacy role
    simp only [becomeCandidate_id] at ok
    split at ok
    · rename_i won
      have rises : Rises r0 (r.becomeCandidate.recordVote r.id true) :=
        ⟨by simpa [recordVote] using queued, .inl (by simp [recordVote]; omega)⟩
      exact .head stand (becomeLeader_acts (by simp) rises won ok)
    · exact .head stand (bcastVote_acts (by simp) ok)

theorem hup_acts {m : Message} {r r' : Raft} {t : CampaignType} (queued : r.messages = r0.messages)
    (order : r0.term ≤ r.term) (ok : r.hup t = .ok r') : Acts r0 m r r' := by
  unfold hup at ok
  split at ok
  · cases ok; exact .refl
  · rename_i role
    split at ok
    · have stand : Act r0 m r (r.becomePreCandidate.recordVote r.id true) := .preCampaign role
      simp only at ok
      split at ok
      · exact .head stand (hupElection_acts queued order ok)
      · exact .head stand (bcastPreVote_acts ok)
    · exact hupElection_acts queued order ok

theorem stepVoteResp_acts {m : Message} {r r' : Raft} (start : r = r0)
    (role : r.state = .preCandidate ∨ r.state = .candidate) (kind : m.type = r.voteRespType)
    (bound : m.type = .msgVoteResp → m.term ≤ r.term) (ok : r.stepVoteResp m = .ok r') :
    Acts r0 m r r' := by
  unfold stepVoteResp at ok
  split at ok
  · cases ok; exact .refl
  · rename_i fresh
    have counted : Act r0 m r (r.recordVote m.fromId (!m.reject)) :=
      .tally role kind (by omega) bound
    refine .head counted ?_
    have still : (r.recordVote m.fromId (!m.reject)).state = .preCandidate ∨
        (r.recordVote m.fromId (!m.reject)).state = .candidate := role
    have same : (r.recordVote m.fromId (!m.reject)).messages = r0.messages ∧
        (r.recordVote m.fromId (!m.reject)).state = r0.state := by subst start; exact ⟨rfl, rfl⟩
    generalize r.recordVote m.fromId (!m.reject) = s at ok still same
    simp only at ok
    split at ok
    · rename_i won
      split at ok
      · rename_i pre
        have stand : Act r0 m s (s.becomeCandidate.recordVote s.id true) :=
          .candidacy (by simp [pre])
        simp only [becomeCandidate_id] at ok
        exact .head stand (bcastVote_acts (by simp) ok)
      · rename_i real
        have role := still.resolve_left real
        exact becomeLeader_acts role ⟨same.1, .inr (same.2 ▸ role)⟩ won ok
    · cases ok; exact .single .abdicate
    · cases ok; exact .refl

/-! The leader. -/

theorem heardFrom_soft {r : Raft} {m : Message} {p : Progress}
    (tracked : r.trk.progress m.fromId = some p) :
    Soft r (r.setProgress m.fromId (r.heardFrom m p)) := by
  constructor <;> try rfl
  intro other
  by_cases same : other = m.fromId
  · subst same
    simp only [setProgress, ProgressTracker.setProgress, Function.update_self, tracked, heardFrom]
    split <;> rfl
  · simp [setProgress, ProgressTracker.setProgress, same]

theorem sendSnapshotOnReject_acts {m : Message} {r r' : Raft} (role : r.state = .leader)
    (kind : m.type = .msgAppResp) (ok : r.sendSnapshotOnReject m = .ok r') :
    Acts r0 m r r' ∧ Kept r r' := by
  unfold sendSnapshotOnReject at ok
  simp only at ok
  split at ok
  · rename_i behind
    rw [send_eq_ok ok]
    exact ⟨emit_acts (.snapshot m.fromId role (.inr ⟨kind, rfl, behind.2.2⟩)), kept_enqueue _ _⟩
  · cases ok
    exact ⟨.refl, .refl _⟩

theorem sendTimeoutNow_acts {m : Message} {r r' : Raft} {target : Nat}
    (ok : r.sendTimeoutNow target = .ok r') : Acts r0 m r r' ∧ Kept r r' := by
  rw [send_eq_ok ok]
  exact ⟨emit_acts (.idle _ (by simp [stamp, isIdle]) (by simp [stamp])), kept_enqueue _ _⟩

theorem finishTransfer_acts {m : Message} {r r' : Raft} {p : Progress}
    (ok : r.finishTransfer m p = .ok r') : Acts r0 m r r' ∧ Kept r r' := by
  unfold finishTransfer at ok
  split at ok
  · exact sendTimeoutNow_acts ok
  · cases ok; exact ⟨.refl, .refl _⟩

theorem drain_eq (r : Raft) : r.drainPendingReadIndexRequests =
    .ok (({ r with pendingReadIndexRequests := [] } : Raft).answerAll
      (r.pendingReadIndexRequests.map (·, r.raftLog.committed))) :=
  respond_foldlM r.pendingReadIndexRequests (fun req => req) (fun r _ => r.raftLog.committed)
    (fun _ _ _ => rfl) _

theorem maybeCommit_cases {r r' : Raft} {i : Nat} {b : Bool} (ok : r.maybeCommit i = .ok (r', b)) :
    b = false ∧ r' = r ∨ b = true ∧ r.raftLog.matchTerm i r.term = .ok true ∧
      ∃ raftLog, r.raftLog.commitTo i = .ok raftLog ∧ r' = { r with raftLog } := by
  unfold maybeCommit at ok
  split at ok
  · cases ok; exact .inl ⟨rfl, rfl⟩
  · obtain ⟨current, found, ok⟩ := Outcome.bind_eq_ok.mp ok
    cases current with
    | false => cases ok; exact .inl ⟨rfl, rfl⟩
    | true =>
      obtain ⟨raftLog, committed, ok⟩ := Outcome.bind_eq_ok.mp ok
      cases ok; exact .inr ⟨rfl, found, raftLog, committed, rfl⟩

theorem stepAppResp_acts {m : Message} {r r' : Raft} {e : Option StepError} (start : r = r0)
    (role : r.state = .leader) (kind : m.type = .msgAppResp) (bound : m.term ≤ r.term)
    (ok : r.stepAppResp m = .ok (r', e)) : Acts r0 m r r' := by
  unfold stepAppResp at ok
  split at ok
  · cases ok; exact .refl
  rename_i prs tracked
  set p := r.heardFrom m prs
  have heard : Soft r (r.setProgress m.fromId p) := heardFrom_soft tracked
  obtain ⟨r1, snapped, ok⟩ := Outcome.bind_eq_ok.mp ok
  obtain ⟨snapActs, snapKept⟩ := sendSnapshotOnReject_acts (heard.state.trans role) kind snapped
  have lead1 : r1.state = .leader := snapKept.state.trans (heard.state.trans role)
  have known : r1.trk.progress m.fromId = some p := by
    simp [snapKept.trk, setProgress, ProgressTracker.setProgress]
  have acked : Act r0 m r1 (r1.setProgress m.fromId (ackedProgress p m)) :=
    .ack p lead1 kind (by rw [snapKept.term, heard.term]; exact bound) known
      ⟨start ▸ role, by rw [snapKept.term, heard.term, start],
        prs, start ▸ tracked, by simp only [p, heardFrom]; split <;> rfl⟩
  obtain ⟨r2, finished, ok⟩ := Outcome.bind_eq_ok.mp ok
  obtain ⟨finishActs, finishKept⟩ := finishTransfer_acts (m := m) finished
  have lead2 : r2.state = .leader := finishKept.state.trans lead1
  refine .head (.soft heard) (snapActs.trans (.head acked (finishActs.trans ?_)))
  obtain ⟨⟨r3, advanced⟩, committed, last⟩ := Outcome.bind_eq_ok.mp ok
  rcases maybeCommit_cases committed with ⟨rfl, rfl⟩ | ⟨rfl, current, raftLog, moved, rfl⟩
  · cases last; exact .refl
  · simp only [done, drain_eq, if_true] at last
    cases last
    exact .head (.commit raftLog lead2 current moved) (.single (.drain lead2))

theorem resends_lagging {m : Message} {r : Raft} {target : Nat} {p : Progress}
    (soft : Soft r0 r) (role : r0.state = .leader)
    (kind : m.type = .msgHeartbeatResp ∨ m.type = .msgTransferLeader) (aimed : target = m.fromId)
    (tracked : r.trk.progress target = some p) (lags : p.matchIndex ≠ r.raftLog.lastIndex) :
    Resends r0 m r target p := by
  refine ⟨fun msg inside _ => soft.messages ▸ inside,
    .inr ⟨⟨role, soft.term.symm, ?_⟩, .inr ⟨kind, aimed, lags⟩⟩⟩
  have same := soft.progress target
  rw [tracked] at same
  obtain ⟨p0, found, pair⟩ := Option.map_eq_some_iff.mp same.symm
  simp only [Prod.mk.injEq] at pair
  exact ⟨p0, found, pair⟩

theorem catchUp_acts {m : Message} {r r' : Raft} {p : Progress} (soft : Soft r0 r)
    (role : r0.state = .leader) (kind : m.type = .msgHeartbeatResp)
    (tracked : r.trk.progress m.fromId = some p) (ok : r.catchUp m p = .ok r') :
    Acts r0 m r r' ∧ Kept r r' := by
  unfold catchUp at ok
  split at ok
  · rename_i behind
    refine sendAppend_acts (soft.state.trans role) (.inr ⟨kind, rfl⟩) (fun p' tracked' => ?_) ok
    obtain rfl : p = p' := Option.some.inj (tracked.symm.trans tracked')
    exact resends_lagging soft role (.inl kind) rfl tracked (by omega)
  · cases ok; exact ⟨.refl, .refl _⟩

theorem ackRead_acts {m : Message} {r r' : Raft} (role : r.state = .leader)
    (kind : m.type = .msgHeartbeatResp) (bound : m.term ≤ r.term) (ok : r.ackRead m = .ok r') :
    Acts r0 m r r' := by
  unfold ackRead at ok
  split at ok
  · cases ok; exact .refl
  rename_i context
  simp only at ok
  split at ok
  · rename_i won
    obtain ⟨⟨readOnly, rss⟩, advanced, ok⟩ := Outcome.bind_eq_ok.mp ok
    simp only [respond_foldlM rss (fun rs => rs.req) (fun _ rs => rs.index) (fun _ _ _ => rfl)] at ok
    cases ok
    exact .single (.release readOnly rss role kind bound context won advanced)
  · cases ok
    exact .single (.ackRead role kind bound context)

theorem stepHeartbeatResp_acts {m : Message} {r r' : Raft} (start : r = r0) (role : r.state = .leader)
    (kind : m.type = .msgHeartbeatResp) (bound : m.term ≤ r.term)
    (ok : r.stepHeartbeatResp m = .ok r') : Acts r0 m r r' := by
  unfold stepHeartbeatResp at ok
  split at ok
  · cases ok; exact .refl
  rename_i prs tracked
  have heard : Soft r (r.setProgress m.fromId (r.heardFrom m prs)) := heardFrom_soft tracked
  obtain ⟨r1, caught, ok⟩ := Outcome.bind_eq_ok.mp ok
  have known : (r.setProgress m.fromId (r.heardFrom m prs)).trk.progress m.fromId =
      some (r.heardFrom m prs) := by simp [setProgress, ProgressTracker.setProgress]
  obtain ⟨acts, kept⟩ : Acts r0 m _ r1 ∧ Kept _ r1 :=
    catchUp_acts (start ▸ heard) (start ▸ role) kind known caught
  have lead1 : r1.state = .leader := kept.state.trans (heard.state.trans role)
  have bound1 : m.term ≤ r1.term := by rw [kept.term, heard.term]; exact bound
  exact .head (.soft heard) (acts.trans (ackRead_acts lead1 kind bound1 ok))

theorem stepReadIndex_acts {m : Message} {r r' : Raft} {e : Option StepError} (start : r = r0)
    (role : r.state = .leader) (kind : m.type = .msgReadIndex)
    (ok : r.stepReadIndex m = .ok (r', e)) : Acts r0 m r r' := by
  unfold stepReadIndex at ok
  split at ok
  · rename_i single
    simp only [done, respondReadIndexReq_eq] at ok
    cases ok
    exact .single (.readSingle role kind single)
  obtain ⟨current, found, ok⟩ := Outcome.bind_eq_ok.mp ok
  cases current with
  | false =>
    cases ok
    exact .single (.holdRead start role kind found)
  | true =>
    simp only [if_true, done] at ok
    obtain ⟨r1, sent, ok⟩ := Outcome.bind_eq_ok.mp ok
    cases ok
    exact .head (.queueRead start role kind found)
      (bcastHeartbeat_acts (by exact role) (.inr ⟨kind, rfl⟩) sent)

theorem stepCheckQuorum_acts {m : Message} (r : Raft) : Acts r0 m r r.stepCheckQuorum := by
  unfold stepCheckQuorum
  split
  · refine soft_acts ?_
    constructor <;> try rfl
    intro id
    simp only [ProgressTracker.visit, Option.map_map]
    congr 1
    funext p
    simp only [Function.comp]
    split <;> rfl
  · exact .single .abdicate

theorem Soft.trans {r r' r'' : Raft} (first : Soft r r') (second : Soft r' r'') : Soft r r'' where
  id := second.id.trans first.id
  term := second.term.trans first.term
  state := second.state.trans first.state
  raftLog := second.raftLog.trans first.raftLog
  messages := second.messages.trans first.messages
  msgsAfterAppend := second.msgsAfterAppend.trans first.msgsAfterAppend
  voters := second.voters.trans first.voters
  ids := second.ids.trans first.ids
  votes := second.votes.trans first.votes
  progress q := (second.progress q).trans (first.progress q)
  peers := second.peers.trans first.peers
  votedFor := second.votedFor.trans first.votedFor
  readStates := second.readStates.trans first.readStates
  readOnly := second.readOnly.trans first.readOnly
  pendingReadIndexRequests :=
    second.pendingReadIndexRequests.trans first.pendingReadIndexRequests

theorem stepTransferLeader_acts {m : Message} {r r' : Raft} (start : r = r0) (role : r.state = .leader)
    (kind : m.type = .msgTransferLeader) (ok : r.stepTransferLeader m = .ok r') : Acts r0 m r r' := by
  unfold stepTransferLeader at ok
  simp only at ok
  split at ok
  · cases ok; exact .refl
  have aborted : Soft r (if r.leadTransferee ≠ None then r.abortLeaderTransfer else r) := by
    split <;> constructor <;> first | rfl | exact fun _ => rfl
  refine .head (.soft aborted) ?_
  have lead1 := aborted.state.trans role
  generalize (if r.leadTransferee ≠ None then r.abortLeaderTransfer else r) = r1 at aborted lead1 ok ⊢
  split at ok
  · cases ok; exact .refl
  rename_i other
  have started : Soft r1 { r1 with electionElapsed := 0, leadTransferee := m.fromId } := by
    constructor <;> first | rfl | exact fun _ => rfl
  refine .head (.soft started) ?_
  split at ok
  · cases ok
  rename_i prs tracked
  split at ok
  · exact (sendTimeoutNow_acts ok).1
  · rename_i lags
    refine (sendAppend_acts (started.state.trans lead1) (.inl other) (fun p tracked' => ?_) ok).1
    obtain rfl : prs = p := Option.some.inj (tracked.symm.trans tracked')
    exact resends_lagging (start ▸ aborted.trans started) (start ▸ role) (.inr kind) rfl tracked lags

theorem done_eq_ok {x : Except Panic Raft} {r' : Raft} {e : Option StepError}
    (ok : done x = .ok (r', e)) : x = .ok r' := by
  obtain ⟨r1, first, ok⟩ := Outcome.bind_eq_ok.mp ok
  cases ok
  exact first

theorem stepLeader_acts {m : Message} {r r' : Raft} {e : Option StepError} (start : r = r0)
    (role : r.state = .leader) (bound : m.term ≤ r.term ∨ m.type = .msgPreVoteResp)
    (ok : r.stepLeader m = .ok (r', e)) : Acts r0 m r r' := by
  unfold stepLeader at ok
  have bounded : m.type ≠ .msgPreVoteResp → m.term ≤ r.term := bound.resolve_right
  split at ok
  · rename_i kind
    exact stepAppResp_acts start role kind (bounded (by simp [kind])) ok
  · rename_i kind
    split at ok
    · cases ok; exact .refl
    · split at ok
      · cases ok
      · obtain ⟨r1, appended, sent⟩ := Outcome.bind_eq_ok.mp (done_eq_ok ok)
        obtain ⟨id, term, trk⟩ := appendEntry_rest appended
        refine .head (.propose _ role appended)
          (bcastAppend_acts ((appendEntry_state appended).trans role) ?_ ?_ sent)
        · rw [appendEntry_messages appended, start]
        · intro s target p kept other tracked first
          rw [kept.trk, trk, start] at tracked
          refine ⟨first, .inr ⟨⟨start ▸ role, ?_, p, tracked, rfl, rfl⟩, .inl ⟨kind, ?_⟩⟩⟩
          · rw [kept.term, term, start]
          · rw [kept.raftLog, appendEntry_lastIndex appended, start]
            omega
  · exact bcastHeartbeat_acts role (.inl rfl) (done_eq_ok ok)
  · rename_i kind
    exact stepHeartbeatResp_acts start role kind (bounded (by simp [kind])) (done_eq_ok ok)
  · rename_i kind
    exact stepReadIndex_acts start role kind ok
  · cases ok; exact stepCheckQuorum_acts r
  · rename_i kind
    exact stepTransferLeader_acts start role kind (done_eq_ok ok)
  · cases ok; exact .refl

/-! Followers and campaigning nodes. -/

theorem heed_soft (r : Raft) (m : Message) : Soft r (r.heed m) := by
  constructor <;> first | rfl | exact fun _ => rfl

theorem handleAppendEntries_acts {m : Message} {r r' : Raft} (heard : Heard r0 m r)
    (role : r.state = .follower)
    (kind : m.type = .msgApp) (bound : m.term ≤ r.term) (ok : r.handleAppendEntries m = .ok r') :
    Acts r0 m r r' := by
  obtain ⟨matched, found, ok⟩ := Outcome.bind_eq_ok.mp ok
  cases matched with
  | false =>
    rw [if_neg (by simp)] at ok
    rw [send_eq_ok ok]
    exact .single (.refuse heard role kind bound found)
  | true =>
    rw [if_pos rfl] at ok
    obtain ⟨appended, append, ok⟩ := Outcome.bind_eq_ok.mp ok
    obtain ⟨committed, commit, ok⟩ := Outcome.bind_eq_ok.mp ok
    rw [send_eq_ok ok]
    exact .single (.accept appended committed heard role kind bound found append commit)

theorem handleHeartbeat_acts {m : Message} {r r' : Raft} (heard : Heard r0 m r)
    (role : r.state = .follower)
    (kind : m.type = .msgHeartbeat) (bound : m.term ≤ r.term) (ok : r.handleHeartbeat m = .ok r') :
    Acts r0 m r r' := by
  obtain ⟨raftLog, committed, ok⟩ := Outcome.bind_eq_ok.mp ok
  rw [send_eq_ok ok]
  exact .single (.beat raftLog heard role kind bound committed)

theorem handleSnapshot_acts {m : Message} {r r' : Raft} (heard : Heard r0 m r)
    (role : r.state = .follower)
    (kind : m.type = .msgSnap) (ok : r.handleSnapshot m = .ok r') : Acts r0 m r r' := by
  unfold handleSnapshot at ok
  split at ok
  · cases ok
  rename_i snap carried
  split at ok
  · cases ok; exact .refl
  · rename_i storage applied
    cases ok
    exact .single (.restore snap storage heard role kind carried applied)

theorem yielded_heard {m : Message} {r : Raft} (start : r = r0)
    (role : r.state = .preCandidate ∨ r.state = .candidate) :
    Heard r0 m (r.becomeFollower m.term m.fromId) where
  heeds := by subst start; rcases role with role | role <;> simp [heeds, role]
  raftLog := by simp [start]
  term := .inl (by simp)

theorem stepCandidate_acts {m : Message} {r r' : Raft} {e : Option StepError} (start : r = r0)
    (role : r.state = .preCandidate ∨ r.state = .candidate)
    (bound : m.term ≤ r.term ∨ m.type = .msgPreVoteResp)
    (ok : r.stepCandidate m = .ok (r', e)) : Acts r0 m r r' := by
  unfold stepCandidate at ok
  have bounded : m.type ≠ .msgPreVoteResp → m.term ≤ r.term := bound.resolve_right
  split at ok
  · cases ok; exact .refl
  · rename_i kind
    have yielded := Act.yield start role (bounded (by simp [kind])) (.inl kind)
    exact .head yielded (handleAppendEntries_acts (yielded_heard start role) (by simp) kind (by simp) (done_eq_ok ok))
  · rename_i kind
    have yielded := Act.yield start role (bounded (by simp [kind])) (.inr (.inl kind))
    exact .head yielded (handleHeartbeat_acts (yielded_heard start role) (by simp) kind (by simp) (done_eq_ok ok))
  · rename_i kind
    have yielded := Act.yield start role (bounded (by simp [kind])) (.inr (.inr kind))
    exact .head yielded (handleSnapshot_acts (yielded_heard start role) (by simp) kind (done_eq_ok ok))
  · cases ok; exact .refl
  · split at ok
    · rename_i kind
      exact stepVoteResp_acts start role kind (fun vote => bounded (by simp [vote])) (done_eq_ok ok)
    · cases ok; exact .refl

theorem forward_acts {m : Message} {r r' : Raft} {e orElse : Option StepError}
    (role : r.state = .follower)
    (kind : m.type = .msgProp ∨ m.type = .msgReadIndex ∨ m.type = .msgTransferLeader)
    (ok : r.forward m orElse = .ok (r', e)) : Acts r0 m r r' := by
  unfold forward at ok
  split at ok
  · cases ok; exact .refl
  · rw [send_eq_ok (done_eq_ok ok)]
    exact emit_acts (.forward role kind)

/-- The state in which `Step` looks at the type: the term check lets the state
through, or has turned it into a follower of the message's term. -/
def Checked (r0 : Raft) (m : Message) (r : Raft) : Prop :=
  r = r0 ∨ r0.term < m.term ∧ r = r0.becomeFollower m.term m.fromId

theorem Checked.heard {m : Message} {r : Raft} (checked : Checked r0 m r)
    (role : r.state = .follower) : Heard r0 m (r.heed m) := by
  rcases checked with rfl | ⟨later, rfl⟩
  · exact ⟨by simp [heeds, role], rfl, .inr ⟨role, rfl⟩⟩
  · exact ⟨by simp [heeds, later], by simp [heed], .inl (by simp [heed])⟩

theorem Checked.messages {m : Message} {r : Raft} (checked : Checked r0 m r) :
    r.messages = r0.messages := by
  rcases checked with rfl | ⟨_, rfl⟩
  · rfl
  · simp

theorem Checked.order {m : Message} {r : Raft} (checked : Checked r0 m r) : r0.term ≤ r.term := by
  rcases checked with rfl | ⟨later, rfl⟩
  · exact le_rfl
  · simpa using later.le

theorem Checked.start {m : Message} {r : Raft} (checked : Checked r0 m r)
    (role : r.state ≠ .follower) : r = r0 :=
  checked.resolve_right (fun later => role (by simp [later.2]))

theorem stepFollower_acts {m : Message} {r r' : Raft} {e : Option StepError} (checked : Checked r0 m r)
    (role : r.state = .follower) (bound : m.term ≤ r.term ∨ m.type = .msgPreVoteResp)
    (ok : r.stepFollower m = .ok (r', e)) : Acts r0 m r r' := by
  unfold stepFollower at ok
  have bounded : m.type ≠ .msgPreVoteResp → m.term ≤ r.term := bound.resolve_right
  have heard := heed_soft r m
  have root := checked.heard role
  split at ok
  · rename_i kind
    exact forward_acts role (.inl kind) ok
  · rename_i kind
    exact .head (.soft heard) (handleAppendEntries_acts root role kind (bounded (by simp [kind]))
      (done_eq_ok ok))
  · rename_i kind
    exact .head (.soft heard) (handleSnapshot_acts root role kind (done_eq_ok ok))
  · rename_i kind
    exact .head (.soft heard) (handleHeartbeat_acts root role kind (bounded (by simp [kind]))
      (done_eq_ok ok))
  · rename_i kind
    exact forward_acts role (.inr (.inl kind)) ok
  · rename_i kind
    cases ok
    exact .single (.noteRead role kind)
  · exact hup_acts checked.messages checked.order (done_eq_ok ok)
  · rename_i kind
    exact forward_acts role (.inr (.inr kind)) ok
  · cases ok; exact .refl

/-! `Step`. -/

theorem checkTerm_acts {m : Message} {r : Raft} (ok : r0.checkTerm m = .ok r) :
    Acts r0 m r0 r ∧ (m.type = .msgPreVote ∨
      Checked r0 m r ∧ (m.term ≤ r.term ∨ m.type = .msgPreVoteResp)) := by
  unfold checkTerm at ok
  split at ok
  · cases ok
    exact ⟨.refl, .inr ⟨.inl rfl, .inl (by omega)⟩⟩
  split at ok
  · rename_i later
    split at ok
    · rename_i pre
      cases ok
      exact ⟨.refl, pre.imp_right (fun kind => ⟨.inl rfl, .inr kind⟩)⟩
    · rename_i kind
      cases ok
      exact ⟨.single (.follow later (not_or.mp kind)), .inr ⟨.inr ⟨later, rfl⟩, .inl (by simp)⟩⟩
  split at ok
  · rename_i stale
    rw [send_eq_ok ok]
    exact ⟨emit_acts (.idle _ (by simp [stamp, isIdle]) (by simp [stamp])), .inl stale.2⟩
  · cases ok
    exact ⟨.refl, .inr ⟨.inl rfl, .inl (by omega)⟩⟩

theorem stepRole_acts {m : Message} {r r' : Raft} {e : Option StepError} (checked : Checked r0 m r)
    (bound : m.term ≤ r.term ∨ m.type = .msgPreVoteResp) (ok : r.stepRole m = .ok (r', e)) :
    Acts r0 m r r' := by
  unfold stepRole at ok
  split at ok
  · rename_i role
    exact stepFollower_acts checked role bound ok
  · rename_i role
    exact stepCandidate_acts (checked.start (by simp [role])) (.inl role) bound ok
  · rename_i role
    exact stepCandidate_acts (checked.start (by simp [role])) (.inr role) bound ok
  · rename_i role
    exact stepLeader_acts (checked.start (by simp [role])) role bound ok

theorem stepVote_acts {m : Message} {r r' : Raft} {e : Option StepError} {granted : Bool}
    (kind : m.type = .msgVote) (bound : m.term ≤ r.term) (found : r.grants m = .ok granted)
    (ok : done ((if granted then { r with votedFor := m.fromId } else r).respondVote m.fromId
      granted .msgVoteResp (if granted then { r with votedFor := m.fromId } else r).term) =
        .ok (r', e)) : Acts r0 m r r' := by
  cases granted with
  | false =>
    rw [send_eq_ok (done_eq_ok ok)]
    exact emit_acts (.idle _ (by simp [stamp, isIdle]) (by simp [stamp]))
  | true =>
    rw [send_eq_ok (done_eq_ok ok)]
    exact .single (.grant kind found bound)

/-- A call of `Step` that returns is a sequence of acts. -/
theorem step_acts {m : Message} {r' : Raft} {e : Option StepError}
    (ok : r0.step m = .ok (r', e)) : Acts r0 m r0 r' := by
  obtain ⟨r, term, ok⟩ := Outcome.bind_eq_ok.mp ok
  obtain ⟨acts, checked⟩ := checkTerm_acts term
  refine acts.trans ?_
  unfold stepType at ok
  split at ok
  · obtain ⟨granted, _, ok⟩ := Outcome.bind_eq_ok.mp ok
    rw [send_eq_ok (done_eq_ok ok)]
    exact emit_acts (.idle _ (by simp [stamp, isIdle]) (by simp [stamp]))
  · rename_i kind
    have bound := (checked.resolve_left (by simp [kind])).2.resolve_right (by simp [kind])
    obtain ⟨granted, found, ok⟩ := Outcome.bind_eq_ok.mp ok
    exact stepVote_acts kind bound found ok
  · rename_i kind
    have root := (checked.resolve_left (by simp [kind])).1
    exact hup_acts root.messages root.order (done_eq_ok ok)
  · rename_i notPreVote _ _
    obtain ⟨checked, bound⟩ := checked.resolve_left notPreVote
    exact stepRole_acts checked bound ok

/-! Acts and the storage. -/

theorem commitFromLeader_storage {l l' : RaftLog} {commit : Nat}
    (ok : commitFromLeader l commit = .ok l') : l'.storage = l.storage := by
  unfold commitFromLeader at ok
  split at ok
  · exact RaftLog.commitTo_storage ok
  · cases ok; rfl

theorem appendEntry_storage {r r' : Raft} {data : Bytes} (ok : r.appendEntry data = .ok r') :
    r'.raftLog.storage = r.raftLog.storage := by
  obtain ⟨raftLog, appended, rfl⟩ := appendEntry_eq ok
  simpa using RaftLog.appendEntries_storage appended

/-- Only a snapshot touches the storage, and never its hard state. -/
theorem Act.storage {m : Message} {r r' : Raft} (act : Act r0 m r r') :
    r'.raftLog.storage = r.raftLog.storage ∨
      m.type = .msgSnap ∧ r'.raftLog.storage.hd = r.raftLog.storage.hd := by
  cases act with
  | soft same => exact .inl (by rw [same.raftLog])
  | lead role won taken appended =>
    exact .inl ((appendEntry_storage appended).trans (by rw [(takeLead_spec taken).raftLog]))
  | propose data role appended => exact .inl (appendEntry_storage appended)
  | accept appended committed heard role kind bound matched append commit =>
    left
    simpa using (commitFromLeader_storage commit).trans (RaftLog.appendEntries_storage append)
  | beat raftLog heard role kind bound committed =>
    left
    simpa using RaftLog.commitTo_storage committed
  | commit raftLog role current committed => exact .inl (RaftLog.commitTo_storage committed)
  | restore snap storage heard role kind carried applied =>
    right
    refine ⟨kind, ?_⟩
    simp only [MemStorage.applySnapshot] at applied
    split at applied <;> simp at applied
    simp [← applied]
  | candidacy role => exact .inl (by simp [becomeCandidate, recordVote])
  | _ => exact .inl (by first | rfl | simp)

end Raft

end Kvgo

import Kvgo.Raft.Quorum
import Kvgo.Raft.Log
import Kvgo.Raft.ReadOnly

/-! The state machine of one node (`raft.go`). A method that assigns to the
receiver returns the new receiver; one that can panic returns it in `Except Panic`.
The source's `step` and `tick` function fields always follow `state`, so the
dispatch is on `state`. Random election timeouts and slice capacities come from
`rng`, an arbitrary stream of draws. -/

namespace Kvgo

inductive State where
  | follower
  | preCandidate
  | candidate
  | leader
  deriving DecidableEq, Repr

inductive CampaignType where
  | campaignPreElection
  | campaignElection
  | campaignTransfer
  deriving DecidableEq, Repr

structure Config where
  id : Nat
  peers : List Nat
  storage : MemStorage
  applied : Nat
  electionTick : Nat
  heartbeatTick : Nat
  rng : Nat → Nat

structure Raft where
  id : Nat
  term : Nat
  state : State
  raftLog : RaftLog
  messages : List Message
  msgsAfterAppend : List Message
  trk : ProgressTracker
  peers : List Nat
  votedFor : Nat
  readStates : List ReadState
  readOnly : ReadOnly
  pendingReadIndexRequests : List Message
  lead : Nat
  heartbeatTimeout : Nat
  electionTimeout : Nat
  electionElapsed : Nat
  heartbeatElapsed : Nat
  randomizedElectionTimeout : Nat
  leadTransferee : Nat
  rng : Nat → Nat
  draws : Nat

namespace Raft

def draw (r : Raft) : Nat × Raft := (r.rng r.draws, { r with draws := r.draws + 1 })

def hardState (r : Raft) : HardState where
  term := r.term
  votedFor := r.votedFor
  committedIndex := r.raftLog.committed

/-! Sending. -/

def enqueue (r : Raft) (m : Message) : Raft :=
  if afterAppend m.type then { r with msgsAfterAppend := r.msgsAfterAppend ++ [m] }
  else { r with messages := r.messages ++ [m] }

def stamp (r : Raft) (m : Message) : Message :=
  let m := if m.fromId = None then { m with fromId := r.id } else m
  match m.type with
  | .msgPreVote | .msgPreVoteResp | .msgVote | .msgVoteResp | .msgProp => m
  | _ => { m with term := r.term }

def isVoteMsg (type : MessageType) : Bool :=
  type == .msgPreVote || type == .msgPreVoteResp || type == .msgVote || type == .msgVoteResp

def send (r : Raft) (m : Message) : Except Panic Raft :=
  if isVoteMsg m.type && m.term == 0 then .error .voteWithoutTerm
  else .ok (r.enqueue (r.stamp m))

def sendAppend (r : Raft) (target : Nat) : Except Panic Raft :=
  match r.trk.progress target with
  | none => .ok r
  | some p => do
    let prevIndex := decr p.nextIndex
    match ← r.raftLog.getTerm prevIndex with
    | none =>
      r.send { type := .msgSnap, toId := target, snapshot := some r.raftLog.storage.snap }
    | some prevTerm =>
      let entries ← r.raftLog.slice p.nextIndex (r.raftLog.lastIndex + 1)
      r.send { type := .msgApp, toId := target, index := prevIndex, logTerm := prevTerm,
               commit := r.raftLog.committed, entries }

def bcastAppend (r : Raft) : Except Panic Raft :=
  r.trk.ids.foldlM (fun r id => if id = r.id then .ok r else r.sendAppend id) r

def sendHeartbeat (r : Raft) (ctx : Bytes) (id : Nat) : Except Panic Raft :=
  match r.trk.progress id with
  | none => .ok r
  | some pr =>
    r.send { type := .msgHeartbeat, toId := id,
             commit := min pr.matchIndex r.raftLog.committed, context := ctx }

def bcastHeartbeat (r : Raft) (ctx : Bytes) : Except Panic Raft :=
  r.trk.ids.foldlM (fun r id => if id = r.id then .ok r else r.sendHeartbeat ctx id) r

def bcastVote (r : Raft) (msgType : MessageType) (term : Nat) : Except Panic Raft := do
  let (lastIndex, lastTerm) ← r.raftLog.lastEntryID
  r.peers.foldlM (fun r pid =>
    r.send { type := msgType, toId := pid, term, index := lastIndex, logTerm := lastTerm }) r

def respondVote (r : Raft) (target : Nat) (granted : Bool) (respType : MessageType) (term : Nat) :
    Except Panic Raft :=
  r.send { type := respType, toId := target, term, reject := !granted }

def sendTimeoutNow (r : Raft) (target : Nat) : Except Panic Raft :=
  r.send { type := .msgTimeoutNow, toId := target }

/-! Role changes. -/

def abortLeaderTransfer (r : Raft) : Raft := { r with leadTransferee := None }

def resetRandomizedElectionTimeout (r : Raft) : Raft :=
  let (v, r) := r.draw
  { r with randomizedElectionTimeout := r.electionTimeout + v % r.electionTimeout }

def freshProgress (self lastIndex : Nat) (id : Nat) (_ : Progress) : Progress where
  matchIndex := if id = self then lastIndex else 0
  nextIndex := lastIndex + 1
  recentActive := false

def reset (r : Raft) (term : Nat) : Raft :=
  let r := if r.term ≠ term then { r with term := term, votedFor := None } else r
  let r := { r with lead := None, electionElapsed := 0, heartbeatElapsed := 0 }
  let r := r.resetRandomizedElectionTimeout.abortLeaderTransfer
  { r with
    trk := r.trk.resetVotes.visit (freshProgress r.id r.raftLog.lastIndex)
    pendingReadIndexRequests := []
    readOnly := ReadOnly.newReadOnly }

def becomeFollower (r : Raft) (term lead : Nat) : Raft :=
  { ({ r with state := .follower }).reset term with lead := lead }

def becomePreCandidate (r : Raft) : Raft := { r with state := .preCandidate, lead := None }

def becomeCandidate (r : Raft) : Raft :=
  let r := ({ r with state := .candidate }).reset (r.term + 1)
  { r with votedFor := r.id }

/-- `appendEntry`: append to the local log and queue the self-ack. -/
def appendEntry (r : Raft) (data : Bytes) : Except Panic Raft := do
  let e : Entry := ⟨r.raftLog.lastIndex + 1, r.term, data⟩
  let (room, r) := r.draw
  let raftLog ← r.raftLog.appendEntries [e] room
  let r := { r with raftLog }
  r.send { type := .msgAppResp, toId := r.id, index := r.raftLog.lastIndex }

/-- The part of `becomeLeader` before the no-op entry is appended. -/
def takeLead (r : Raft) : Except Panic Raft :=
  let r := ({ r with state := .leader }).reset r.term
  match r.trk.progress r.id with
  | none => .error .runtime
  | some pr =>
    .ok { r with lead := r.id, trk := r.trk.setProgress r.id { pr with recentActive := true } }

def becomeLeader (r : Raft) : Except Panic Raft := do
  let r ← r.takeLead
  let r ← r.appendEntry []
  r.bcastAppend

def recordVote (r : Raft) (id : Nat) (v : Bool) : Raft := { r with trk := r.trk.recordVote id v }

/-- `hup` past the pre-vote: a campaign for the next term. -/
def hupElection (r : Raft) : Except Panic Raft :=
  if r.state = .leader then .ok r
  else
    let r := r.becomeCandidate
    let r := r.recordVote r.id true
    if r.trk.tallyVotes = .voteWon then r.becomeLeader
    else r.bcastVote .msgVote r.term

def hup (r : Raft) (t : CampaignType) : Except Panic Raft :=
  if r.state = .leader then .ok r
  else if t = .campaignPreElection then
    let r := r.becomePreCandidate
    let term := r.term + 1
    let r := r.recordVote r.id true
    if r.trk.tallyVotes = .voteWon then r.hupElection
    else r.bcastVote .msgPreVote term
  else r.hupElection

/-! Voting. -/

def canVoteFor (r : Raft) (m : Message) : Bool :=
  !(decide (m.term < r.term)) &&
    !(decide (m.term = r.term) && decide (r.votedFor ≠ None) && decide (r.votedFor ≠ m.fromId))

/-- `canVoteFor(m) && isCandidateUpToDate(m)`, which reads the log only when needed. -/
def grants (r : Raft) (m : Message) : Except Panic Bool :=
  if r.canVoteFor m then r.raftLog.isUpToDate m.index m.logTerm else .ok false

/-! Commit index and linearizable reads. -/

def committedEntryInCurrentTerm (r : Raft) : Except Panic Bool :=
  r.raftLog.matchTerm r.raftLog.committed r.term

def maybeCommit (r : Raft) (i : Nat) : Except Panic (Raft × Bool) :=
  if i ≤ r.raftLog.committed then .ok (r, false)
  else do
    if ← r.raftLog.matchTerm i r.term then
      let raftLog ← r.raftLog.commitTo i
      .ok ({ r with raftLog }, true)
    else .ok (r, false)

def respondReadIndexReq (r : Raft) (m : Message) (readIndex : Nat) : Except Panic Raft :=
  if m.fromId = None ∨ m.fromId = r.id then
    .ok { r with readStates := r.readStates ++ [⟨readIndex, m.context⟩] }
  else
    r.send { type := .msgReadIndexResp, toId := m.fromId, context := m.context, index := readIndex }

def drainPendingReadIndexRequests (r : Raft) : Except Panic Raft :=
  let reqs := r.pendingReadIndexRequests
  reqs.foldlM (fun r req => r.respondReadIndexReq req r.raftLog.committed)
    { r with pendingReadIndexRequests := [] }

/-! Handlers of replication messages. -/

def acceptResp (m : Message) : Message :=
  match m.entries.getLast? with
  | none => { type := .msgAppResp, toId := m.fromId }
  | some last => { type := .msgAppResp, toId := m.fromId, index := last.index, logTerm := last.term }

def commitFromLeader (l : RaftLog) (commit : Nat) : Except Panic RaftLog :=
  if l.committed < commit then l.commitTo (min commit l.lastIndex) else .ok l

def handleAppendEntries (r : Raft) (m : Message) : Except Panic Raft := do
  if ← r.raftLog.matchTerm m.index m.logTerm then
    let (room, r) := r.draw
    let raftLog ← r.raftLog.appendEntries m.entries room
    let raftLog ← commitFromLeader raftLog m.commit
    ({ r with raftLog } : Raft).send (acceptResp m)
  else
    r.send {
      type := .msgAppResp, toId := m.fromId, reject := true, index := m.index
      rejectHint := r.raftLog.storage.snap.lastIncludedIndex }

def handleHeartbeat (r : Raft) (m : Message) : Except Panic Raft := do
  let raftLog ← r.raftLog.commitTo m.commit
  ({ r with raftLog } : Raft).send
    { type := .msgHeartbeatResp, toId := m.fromId, context := m.context }

def handleSnapshot (r : Raft) (m : Message) : Except Panic Raft :=
  match m.snapshot with
  | none => .error .runtime
  | some snap =>
    match r.raftLog.storage.applySnapshot snap with
    | (_, some _) => .ok r
    | (storage, none) =>
      .ok { r with raftLog := { r.raftLog with storage }.restore snap.lastIncludedIndex }

/-! Message dispatch, one function for each role. -/

abbrev Result := Except Panic (Raft × Option StepError)

def done (r : Except Panic Raft) : Result := do .ok (← r, none)

def heardFrom (r : Raft) (m : Message) (p : Progress) : Progress :=
  if m.term = r.term then { p with recentActive := true } else p

def setProgress (r : Raft) (id : Nat) (p : Progress) : Raft :=
  { r with trk := r.trk.setProgress id p }

def sendSnapshotOnReject (r : Raft) (m : Message) : Except Panic Raft :=
  let firstIndex := r.raftLog.storage.firstIndex
  if m.reject ∧ 0 < firstIndex ∧ m.rejectHint < firstIndex - 1 then
    r.send { type := .msgSnap, toId := m.fromId, snapshot := some r.raftLog.storage.snap }
  else .ok r

def ackedProgress (p : Progress) (m : Message) : Progress :=
  if m.reject then { p with nextIndex := decr p.nextIndex }
  else { p with matchIndex := m.index, nextIndex := m.index + 1 }

def finishTransfer (r : Raft) (m : Message) (p : Progress) : Except Panic Raft :=
  if m.fromId = r.leadTransferee ∧ p.matchIndex = r.raftLog.lastIndex then r.sendTimeoutNow m.fromId
  else .ok r

def stepAppResp (r : Raft) (m : Message) : Result :=
  match r.trk.progress m.fromId with
  | none => .ok (r, some .unknownPeer)
  | some prs => do
    let p := r.heardFrom m prs
    let r ← (r.setProgress m.fromId p).sendSnapshotOnReject m
    let p := ackedProgress p m
    let r ← (r.setProgress m.fromId p).finishTransfer m p
    let (r, advanced) ← r.maybeCommit r.trk.committed
    if advanced then done r.drainPendingReadIndexRequests else .ok (r, none)

def catchUp (r : Raft) (m : Message) (p : Progress) : Except Panic Raft :=
  if p.matchIndex < r.raftLog.lastIndex then r.sendAppend m.fromId else .ok r

def ackRead (r : Raft) (m : Message) : Except Panic Raft :=
  if m.context = [] then .ok r
  else
    let acked := r.readOnly.recvAck m.fromId m.context
    let r := { r with readOnly := acked.1 }
    if r.trk.voters.voteResult acked.2 = .voteWon then do
      let (readOnly, rss) ← r.readOnly.advance m
      rss.foldlM (fun r rs => r.respondReadIndexReq rs.req rs.index) { r with readOnly }
    else .ok r

def stepHeartbeatResp (r : Raft) (m : Message) : Except Panic Raft :=
  match r.trk.progress m.fromId with
  | none => .ok r
  | some prs => do
    let p := r.heardFrom m prs
    let r ← (r.setProgress m.fromId p).catchUp m p
    r.ackRead m

def stepReadIndex (r : Raft) (m : Message) : Result :=
  if r.trk.isSingleton then done (r.respondReadIndexReq m r.raftLog.committed)
  else do
    if ← r.committedEntryInCurrentTerm then
      let readOnly := r.readOnly.addRequest r.raftLog.committed m
      let r := { r with readOnly := (readOnly.recvAck r.id m.context).1 }
      done (r.bcastHeartbeat m.context)
    else
      .ok ({ r with pendingReadIndexRequests := r.pendingReadIndexRequests ++ [m] }, none)

def stepCheckQuorum (r : Raft) : Raft :=
  if r.trk.quorumActive then
    { r with
      trk := r.trk.visit
        (fun id pr => if id = r.id then pr else { pr with recentActive := false }) }
  else r.becomeFollower r.term None

def stepTransferLeader (r : Raft) (m : Message) : Except Panic Raft :=
  let leadTransferee := m.fromId
  if r.leadTransferee ≠ None ∧ r.leadTransferee = leadTransferee then .ok r
  else
    let r := if r.leadTransferee ≠ None then r.abortLeaderTransfer else r
    if leadTransferee = r.id then .ok r
    else
      let r := { r with electionElapsed := 0, leadTransferee := leadTransferee }
      match r.trk.progress leadTransferee with
      | none => .error .runtime
      | some prs =>
        if prs.matchIndex = r.raftLog.lastIndex then r.sendTimeoutNow leadTransferee
        else r.sendAppend leadTransferee

def stepLeader (r : Raft) (m : Message) : Result :=
  match m.type with
  | .msgAppResp => r.stepAppResp m
  | .msgProp =>
    if r.leadTransferee ≠ None then .ok (r, some .proposalDropped)
    else
      match m.entries with
      | [] => .error .emptyProp
      | e :: _ => done (do (← r.appendEntry e.data).bcastAppend)
  | .msgBeat => done (r.bcastHeartbeat [])
  | .msgHeartbeatResp => done (r.stepHeartbeatResp m)
  | .msgReadIndex => r.stepReadIndex m
  | .msgCheckQuorum => .ok (r.stepCheckQuorum, none)
  | .msgTransferLeader => done (r.stepTransferLeader m)
  | _ => .ok (r, none)

def voteRespType (r : Raft) : MessageType :=
  if r.state = .candidate then .msgVoteResp else .msgPreVoteResp

def stepVoteResp (r : Raft) (m : Message) : Except Panic Raft :=
  if m.term < r.term then .ok r
  else
    let r := r.recordVote m.fromId (!m.reject)
    match r.trk.tallyVotes with
    | .voteWon =>
      if r.state = .preCandidate then
        let r := r.becomeCandidate
        let r := r.recordVote r.id true
        r.bcastVote .msgVote r.term
      else r.becomeLeader
    | .voteLost => .ok (r.becomeFollower r.term None)
    | .votePending => .ok r

def stepCandidate (r : Raft) (m : Message) : Result :=
  match m.type with
  | .msgProp => .ok (r, some .proposalDropped)
  | .msgApp => done ((r.becomeFollower m.term m.fromId).handleAppendEntries m)
  | .msgHeartbeat => done ((r.becomeFollower m.term m.fromId).handleHeartbeat m)
  | .msgSnap => done ((r.becomeFollower m.term m.fromId).handleSnapshot m)
  | .msgReadIndex => .ok (r, some .proposalDropped)
  | type => if type = r.voteRespType then done (r.stepVoteResp m) else .ok (r, none)

def heed (r : Raft) (m : Message) : Raft := { r with electionElapsed := 0, lead := m.fromId }

def forward (r : Raft) (m : Message) (orElse : Option StepError) : Result :=
  if r.lead = None then .ok (r, orElse) else done (r.send { m with toId := r.lead })

def stepFollower (r : Raft) (m : Message) : Result :=
  match m.type with
  | .msgProp => r.forward m (some .proposalDropped)
  | .msgApp => done ((r.heed m).handleAppendEntries m)
  | .msgSnap => done ((r.heed m).handleSnapshot m)
  | .msgHeartbeat => done ((r.heed m).handleHeartbeat m)
  | .msgReadIndex => r.forward m (some .proposalDropped)
  | .msgReadIndexResp =>
    .ok ({ r with readStates := r.readStates ++ [⟨m.index, m.context⟩] }, none)
  | .msgTimeoutNow => done (r.hup .campaignTransfer)
  | .msgTransferLeader => r.forward m none
  | _ => .ok (r, none)

/-- The first `switch` of `Step`: what the term of a message does before its type is looked at. -/
def checkTerm (r : Raft) (m : Message) : Except Panic Raft :=
  if m.term = 0 then .ok r
  else if r.term < m.term then
    if m.type = .msgPreVote ∨ m.type = .msgPreVoteResp then .ok r
    else .ok (r.becomeFollower m.term m.fromId)
  else if m.term < r.term ∧ m.type = .msgPreVote then
    r.respondVote m.fromId false .msgPreVoteResp r.term
  else .ok r

def stepRole (r : Raft) (m : Message) : Result :=
  match r.state with
  | .follower => r.stepFollower m
  | .preCandidate => r.stepCandidate m
  | .candidate => r.stepCandidate m
  | .leader => r.stepLeader m

def stepType (r : Raft) (m : Message) : Result :=
  match m.type with
  | .msgPreVote => do
    let granted ← r.grants m
    done (r.respondVote m.fromId granted .msgPreVoteResp m.term)
  | .msgVote => do
    let granted ← r.grants m
    let r := if granted then { r with votedFor := m.fromId } else r
    done (r.respondVote m.fromId granted .msgVoteResp r.term)
  | .msgHup => done (r.hup .campaignPreElection)
  | _ => r.stepRole m

def step (r : Raft) (m : Message) : Result := do
  let r ← r.checkTerm m
  r.stepType m

/-! The entry points of the node loop. -/

def propose (r : Raft) (data : Bytes) : Result :=
  r.step { type := .msgProp, entries := [⟨0, 0, data⟩] }

def campaign (r : Raft) : Result := r.step { type := .msgHup }

def readIndex (r : Raft) (ctx : Bytes) : Result :=
  r.step { type := .msgReadIndex, context := ctx }

/-- `_ = r.Step(m)`: the error is dropped. -/
def stepQuietly (r : Raft) (m : Message) : Except Panic Raft := do .ok (← r.step m).1

def tickElection (r : Raft) : Except Panic Raft :=
  let r := { r with electionElapsed := r.electionElapsed + 1 }
  if r.randomizedElectionTimeout ≤ r.electionElapsed then
    ({ r with electionElapsed := 0 } : Raft).stepQuietly { type := .msgHup, fromId := r.id }
  else .ok r

def tickQuorum (r : Raft) : Except Panic Raft :=
  if r.electionTimeout ≤ r.electionElapsed then do
    let r ← ({ r with electionElapsed := 0 } : Raft).stepQuietly { type := .msgCheckQuorum }
    .ok (if r.state = .leader ∧ r.leadTransferee ≠ None then r.abortLeaderTransfer else r)
  else .ok r

def tickHeartbeat (r : Raft) : Except Panic Raft := do
  let elapsed : Raft := { r with
    heartbeatElapsed := r.heartbeatElapsed + 1, electionElapsed := r.electionElapsed + 1 }
  let r ← elapsed.tickQuorum
  if r.heartbeatTimeout ≤ r.heartbeatElapsed then
    ({ r with heartbeatElapsed := 0 } : Raft).stepQuietly { type := .msgBeat, fromId := r.id }
  else .ok r

def tick (r : Raft) : Except Panic Raft :=
  if r.state = .leader then r.tickHeartbeat else r.tickElection

/-! Construction. -/

def validate (c : Config) : Bool :=
  decide (0 < c.heartbeatTick) && decide (c.heartbeatTick < c.electionTick)

/-- The record that `newRaft` fills in before it looks at the persisted state. -/
def blank (cfg : Config) : Raft where
  id := cfg.id
  term := 0
  state := .follower
  raftLog := RaftLog.newRaftLog cfg.storage
  messages := []
  msgsAfterAppend := []
  trk := cfg.peers.foldl (fun t pid => t.initProgress pid 0 1)
    (ProgressTracker.newTracker cfg.id (buildMajorityConfig cfg.id cfg.peers))
  peers := cfg.peers
  votedFor := None
  readStates := []
  readOnly := ReadOnly.newReadOnly
  pendingReadIndexRequests := []
  lead := None
  heartbeatTimeout := cfg.heartbeatTick
  electionTimeout := cfg.electionTick
  electionElapsed := 0
  heartbeatElapsed := 0
  randomizedElectionTimeout := 0
  leadTransferee := None
  rng := cfg.rng
  draws := 0

def loadHardState (r : Raft) (hs : HardState) : Raft :=
  if isEmptyHardState (some hs) then r
  else
    { r with
      term := hs.term
      votedFor := hs.votedFor
      raftLog := { r.raftLog with committed := hs.committedIndex } }

def loadApplied (r : Raft) (applied firstIndex : Nat) : Raft :=
  if 0 < applied then { r with raftLog := r.raftLog.appliedTo applied }
  else if 0 < firstIndex then { r with raftLog := r.raftLog.appliedTo (firstIndex - 1) }
  else r

def newRaft (cfg : Config) : Except Panic Raft :=
  if !validate cfg then .error .badConfig
  else
    let r := (blank cfg).loadHardState cfg.storage.hd
    let firstIndex := cfg.storage.firstIndex
    if r.raftLog.committed < cfg.applied then .error .appliedBeyondCommitted
    else if 0 < cfg.applied ∧ 0 < firstIndex ∧ cfg.applied < firstIndex - 1 then
      .error .appliedCompacted
    else
      let r := r.loadApplied cfg.applied firstIndex
      .ok (r.becomeFollower r.term None)

end Raft

end Kvgo

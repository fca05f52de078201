import Kvgo.Raft.ReadQueue
import Kvgo.Raft.Votes

/-! Every read request gets its own answer. A leader answers a request at once when it is alone,
keeps it until its first commit of the term, or queues it until a quorum has acknowledged a
heartbeat. The queue is keyed by the context of the request alone. -/

namespace Kvgo

structure Office where
  id : Nat
  voters : MajorityConfig
  readOnly : ReadOnly
  parked : List Message
  readStates : List ReadState
  responses : List Message

def Office.answered (o o' : Office) : List (Nat × Bytes) :=
  (o'.readStates.drop o.readStates.length).map (fun s => (o.id, s.requestCtx)) ++
    (o'.responses.drop o.responses.length).map (fun m => (m.toId, m.context))

namespace Raft

def isReadIndexResp (m : Message) : Bool := m.type == .msgReadIndexResp

def office (r : Raft) : Office where
  id := r.id
  voters := r.trk.voters
  readOnly := r.readOnly
  parked := r.pendingReadIndexRequests
  readStates := r.readStates
  responses := r.messages.filter isReadIndexResp

def issuer (r : Raft) (m : Message) : Nat := if m.fromId = None then r.id else m.fromId

def due (r : Raft) (m : Message) : Nat × Bytes := (r.issuer m, m.context)

variable {r r' r1 : Raft} {m : Message} {e : Option StepError}

theorem answered_same {o o' : Office} (states : o'.readStates = o.readStates) (responses : o'.responses = o.responses) :
    o.answered o' = [] := by
  simp [Office.answered, states, responses]

/-! Sending anything else says nothing to a reader. -/

theorem enqueue_office {msg : Message} (other : msg.type ≠ .msgReadIndexResp) : (r.enqueue msg).office = r.office := by
  have out : isReadIndexResp msg = false := by simpa [isReadIndexResp] using other
  unfold enqueue
  split
  · rfl
  · simp [office, List.filter_append, out]

theorem send_office {msg : Message} (ok : r.send msg = .ok r') (other : msg.type ≠ .msgReadIndexResp) :
    r'.office = r.office := by
  rw [send_eq_ok ok]
  exact enqueue_office (by simpa using other)

theorem foldlM_office {α : Type} {f : Raft → α → Except Panic Raft} {xs : List α}
    (each : ∀ s x s', f s x = .ok s' → s'.office = s.office) (ok : xs.foldlM f r = .ok r') : r'.office = r.office :=
  (Outcome.foldlM_rel (fun s => s.office = r.office) (fun _ _ => True)
    (fun s x s' _ same done => ⟨(each s x s' done).trans same, .single trivial⟩) rfl ok).1

theorem sendAppend_office {target : Nat} (ok : r.sendAppend target = .ok r') : r'.office = r.office := by
  unfold sendAppend at ok
  split at ok
  · cases ok
    rfl
  · obtain ⟨found, _, ok⟩ := Outcome.bind_eq_ok.mp ok
    cases found with
    | none => exact send_office ok (by simp)
    | some prevTerm =>
      obtain ⟨entries, _, ok⟩ := Outcome.bind_eq_ok.mp ok
      exact send_office ok (by simp)

theorem bcastAppend_office (ok : r.bcastAppend = .ok r') : r'.office = r.office := by
  refine foldlM_office (fun s id s' sent => ?_) ok
  split at sent
  · cases sent
    rfl
  · exact sendAppend_office sent

theorem bcastHeartbeat_office {ctx : Bytes} (ok : r.bcastHeartbeat ctx = .ok r') : r'.office = r.office := by
  refine foldlM_office (fun s id s' sent => ?_) ok
  split at sent
  · cases sent
    rfl
  · unfold sendHeartbeat at sent
    split at sent
    · cases sent
      rfl
    · exact send_office sent (by simp)

theorem appendEntry_office {data : Bytes} (ok : r.appendEntry data = .ok r') : r'.office = r.office := by
  obtain ⟨raftLog, _, rfl⟩ := appendEntry_eq ok
  exact enqueue_office (by simp [selfAck])

theorem maybeCommit_office {i : Nat} {advanced : Bool} (ok : r.maybeCommit i = .ok (r', advanced)) :
    r'.office = r.office := by
  rcases maybeCommit_cases ok with ⟨_, rfl⟩ | ⟨_, raftLog, _, _, rfl⟩ <;> rfl

theorem stepTransferLeader_office (ok : r.stepTransferLeader m = .ok r') : r'.office = r.office := by
  unfold stepTransferLeader at ok
  dsimp only at ok
  have aborted : (if r.leadTransferee ≠ None then r.abortLeaderTransfer else r).office = r.office := by
    split <;> rfl
  generalize (if r.leadTransferee ≠ None then r.abortLeaderTransfer else r) = s at ok aborted
  split at ok
  · cases ok
    rfl
  split at ok
  · cases ok
    exact aborted
  split at ok
  · cases ok
  split at ok
  · exact (send_office ok (by simp)).trans aborted
  · exact (sendAppend_office ok).trans aborted

/-! Answers. -/

def Replies (r : Raft) (reqs : List Message) (r' : Raft) : Prop :=
  (r.office.answered r'.office).Perm (reqs.map r.due)

theorem replies_nil (same : r'.office = r.office) : Replies r [] r' := by
  unfold Replies
  rw [same, answered_same rfl rfl]
  rfl

theorem remoteAnswer_isReadIndexResp (reqs : List (Message × Nat)) :
    (reqs.filterMap r.remoteAnswer).filter isReadIndexResp = reqs.filterMap r.remoteAnswer := by
  rw [List.filter_eq_self]
  intro msg inside
  obtain ⟨req, _, answer⟩ := List.mem_filterMap.mp inside
  unfold remoteAnswer at answer
  split at answer
  · cases answer
  · obtain rfl := Option.some.inj answer
    simp [isReadIndexResp]

theorem answers_due (reqs : List (Message × Nat)) :
    ((reqs.filterMap r.localAnswer).map (fun s => (r.id, s.requestCtx)) ++
      (reqs.filterMap r.remoteAnswer).map (fun m => (m.toId, m.context))).Perm
      (reqs.map (fun req => r.due req.1)) := by
  induction reqs with
  | nil => rfl
  | cons req reqs ih =>
    by_cases own : req.1.fromId = None ∨ req.1.fromId = r.id
    · have here : r.localAnswer req = some ⟨req.2, req.1.context⟩ := if_pos own
      have away : r.remoteAnswer req = none := if_pos own
      have issuer : r.issuer req.1 = r.id := by
        unfold Raft.issuer
        split
        · rfl
        · exact own.resolve_left ‹_›
      rw [List.filterMap_cons_some here, List.filterMap_cons_none away]
      simp only [List.map_cons, List.cons_append, due, issuer]
      exact ih.cons _
    · have here : r.localAnswer req = none := if_neg own
      have away : r.remoteAnswer req = some (r.stamp
          { type := .msgReadIndexResp, toId := req.1.fromId, context := req.1.context, index := req.2 }) :=
        if_neg own
      have issuer : r.issuer req.1 = req.1.fromId := if_neg (fun none => own (.inl none))
      rw [List.filterMap_cons_none here, List.filterMap_cons_some away]
      simp only [List.map_cons, due, issuer, stamp_toId, stamp_context]
      exact List.perm_middle.trans (ih.cons _)

theorem answerAll_replies (reqs : List (Message × Nat)) : Replies r (reqs.map Prod.fst) (r.answerAll reqs) := by
  unfold Replies Office.answered
  have said : (r.answerAll reqs).office.responses = r.office.responses ++ reqs.filterMap r.remoteAnswer := by
    simp only [office, answerAll, List.filter_append, remoteAnswer_isReadIndexResp]
  rw [said, show (r.answerAll reqs).office.readStates = r.office.readStates ++ reqs.filterMap r.localAnswer from rfl,
    List.drop_left' rfl, List.drop_left' rfl, List.map_map]
  exact answers_due reqs

theorem Replies.of_office {reqs : List Message} (replies : Replies r1 reqs r') (id : r1.id = r.id)
    (states : r1.readStates = r.readStates) (messages : r1.office.responses = r.office.responses) :
    Replies r reqs r' := by
  unfold Replies at replies ⊢
  have due : r1.due = r.due := by
    funext m
    simp [Raft.due, issuer, id]
  have same : r1.office.answered r'.office = r.office.answered r'.office := by
    unfold Office.answered
    rw [messages, show r1.office.readStates = r.office.readStates from states, show r1.office.id = r.office.id from id]
  rwa [due, same] at replies

/-! What one call does at a leader. -/

/-- The queue and the parked requests behind a call, and the requests it answers. -/
inductive Serves (r : Raft) (m : Message) : ReadOnly → List Message → List Message → Prop
  | idle (other : m.type ≠ .msgReadIndex)
      (deaf : m.type = .msgHeartbeatResp → r.trk.progress m.fromId = none ∨ m.context = []) :
      Serves r m r.readOnly r.pendingReadIndexRequests []
  | single (kind : m.type = .msgReadIndex) (alone : r.trk.isSingleton = true) :
      Serves r m r.readOnly r.pendingReadIndexRequests [m]
  | queue (kind : m.type = .msgReadIndex) (many : r.trk.isSingleton = false)
      (current : r.committedEntryInCurrentTerm = .ok true) :
      Serves r m ((r.readOnly.addRequest r.raftLog.committed m).recvAck r.id m.context).1
        r.pendingReadIndexRequests []
  | park (kind : m.type = .msgReadIndex) (many : r.trk.isSingleton = false)
      (early : r.committedEntryInCurrentTerm = .ok false) :
      Serves r m r.readOnly (r.pendingReadIndexRequests ++ [m]) []
  | drain (kind : m.type = .msgAppResp) : Serves r m r.readOnly [] r.pendingReadIndexRequests
  | ack (kind : m.type = .msgHeartbeatResp) (known : (r.trk.progress m.fromId).isSome)
      (few : r.trk.voters.voteResult (r.readOnly.recvAck m.fromId m.context).2 ≠ .voteWon) :
      Serves r m (r.readOnly.recvAck m.fromId m.context).1 r.pendingReadIndexRequests []
  | release (kind : m.type = .msgHeartbeatResp) (known : (r.trk.progress m.fromId).isSome) (readOnly : ReadOnly)
      (rss : List ReadIndexStatus)
      (advanced : (r.readOnly.recvAck m.fromId m.context).1.advance m = .ok (readOnly, rss)) :
      Serves r m readOnly r.pendingReadIndexRequests (rss.map ReadIndexStatus.req)

def Served (r : Raft) (m : Message) (r' : Raft) : Prop :=
  ∃ reqs, Serves r m r'.readOnly r'.pendingReadIndexRequests reqs ∧ Replies r reqs r'

theorem served_idle (same : r'.office = r.office) (other : m.type ≠ .msgReadIndex)
    (deaf : m.type = .msgHeartbeatResp → r.trk.progress m.fromId = none ∨ m.context = []) : Served r m r' := by
  have serves := Serves.idle (r := r) other deaf
  rw [← show r'.readOnly = r.readOnly from congrArg Office.readOnly same,
    ← show r'.pendingReadIndexRequests = r.pendingReadIndexRequests from congrArg Office.parked same] at serves
  exact ⟨[], serves, replies_nil same⟩

theorem stepAppResp_served (kind : m.type = .msgAppResp) (ok : r.stepAppResp m = .ok (r', e)) : Served r m r' := by
  have other : m.type ≠ .msgReadIndex := by simp [kind]
  have deaf : m.type = .msgHeartbeatResp → r.trk.progress m.fromId = none ∨ m.context = [] := by simp [kind]
  unfold stepAppResp at ok
  split at ok
  · cases ok
    exact served_idle rfl other deaf
  · obtain ⟨r1, first, ok⟩ := Outcome.bind_eq_ok.mp ok
    obtain ⟨r2, second, ok⟩ := Outcome.bind_eq_ok.mp ok
    obtain ⟨⟨r3, advanced⟩, third, ok⟩ := Outcome.bind_eq_ok.mp ok
    have upTo1 : r1.office = r.office := by
      unfold sendSnapshotOnReject at first
      simp only at first
      split at first
      · exact (send_office first (by simp)).trans rfl
      · cases first
        rfl
    have upTo2 : r2.office = r1.office := by
      unfold finishTransfer at second
      split at second
      · exact (send_office second (by simp)).trans rfl
      · cases second
        rfl
    have upTo3 : r3.office = r.office := (maybeCommit_office third).trans (upTo2.trans upTo1)
    dsimp only at ok
    split at ok
    · have drained := done_eq_ok ok
      rw [drain_eq] at drained
      cases drained
      have readOnly : r3.readOnly = r.readOnly := congrArg Office.readOnly upTo3
      have parked : r3.pendingReadIndexRequests = r.pendingReadIndexRequests := congrArg Office.parked upTo3
      have responses : r3.office.responses = r.office.responses := congrArg Office.responses upTo3
      refine ⟨r.pendingReadIndexRequests, ?_, ?_⟩
      · show Serves r m r3.readOnly [] _
        rw [readOnly]
        exact .drain kind
      · have replies := answerAll_replies (r := { r3 with pendingReadIndexRequests := [] })
          (r3.pendingReadIndexRequests.map (·, r3.raftLog.committed))
        have reqs : (r3.pendingReadIndexRequests.map (·, r3.raftLog.committed)).map Prod.fst =
            r.pendingReadIndexRequests := by
          rw [parked, List.map_map]
          exact List.map_id _
        rw [reqs, parked] at replies
        rw [parked]
        exact replies.of_office (congrArg Office.id upTo3) (congrArg Office.readStates upTo3) responses
    · cases ok
      exact served_idle upTo3 other deaf

theorem stepHeartbeatResp_served (kind : m.type = .msgHeartbeatResp) (ok : r.stepHeartbeatResp m = .ok r') :
    Served r m r' := by
  have other : m.type ≠ .msgReadIndex := by simp [kind]
  unfold stepHeartbeatResp at ok
  split at ok
  · rename_i unknown
    cases ok
    exact served_idle rfl other (fun _ => .inl unknown)
  rename_i prs found
  have known : (r.trk.progress m.fromId).isSome := by simp [found]
  obtain ⟨r1, first, ok⟩ := Outcome.bind_eq_ok.mp ok
  have upTo1 : r1.office = r.office := by
    unfold catchUp at first
    split at first
    · exact (sendAppend_office first).trans rfl
    · cases first
      rfl
  have voters : r1.trk.voters = r.trk.voters := congrArg Office.voters upTo1
  have responses : r1.office.responses = r.office.responses := congrArg Office.responses upTo1
  have readOnly : r1.readOnly = r.readOnly := congrArg Office.readOnly upTo1
  have parked : r1.pendingReadIndexRequests = r.pendingReadIndexRequests := congrArg Office.parked upTo1
  unfold ackRead at ok
  split at ok
  · rename_i empty
    cases ok
    exact served_idle upTo1 other (fun _ => .inr empty)
  dsimp only at ok
  rw [readOnly, voters] at ok
  split at ok
  · obtain ⟨⟨after, rss⟩, advanced, ok⟩ := Outcome.bind_eq_ok.mp ok
    simp only [respond_foldlM rss (fun rs => rs.req) (fun _ rs => rs.index) (fun _ _ _ => rfl)] at ok
    cases ok
    refine ⟨rss.map ReadIndexStatus.req, ?_, ?_⟩
    · show Serves r m after r1.pendingReadIndexRequests _
      rw [parked]
      exact .release kind known after rss advanced
    · have replies := answerAll_replies (r := { r1 with readOnly := after }) (rss.map (fun rs => (rs.req, rs.index)))
      rw [List.map_map] at replies
      exact replies.of_office (congrArg Office.id upTo1) (congrArg Office.readStates upTo1) responses
  · rename_i few
    cases ok
    refine ⟨[], ?_, ?_⟩
    · show Serves r m _ r1.pendingReadIndexRequests _
      rw [parked]
      exact .ack kind known few
    · exact (replies_nil (r := { r1 with readOnly := (r.readOnly.recvAck m.fromId m.context).1 }) rfl).of_office
        (congrArg Office.id upTo1) (congrArg Office.readStates upTo1) responses

theorem stepReadIndex_served (kind : m.type = .msgReadIndex) (ok : r.stepReadIndex m = .ok (r', e)) :
    Served r m r' := by
  unfold stepReadIndex at ok
  split at ok
  · rename_i alone
    have answered := done_eq_ok ok
    rw [respondReadIndexReq_eq] at answered
    cases answered
    exact ⟨[m], .single kind alone, answerAll_replies [(m, r.raftLog.committed)]⟩
  rename_i many
  have several : r.trk.isSingleton = false := by simpa using many
  obtain ⟨current, now, ok⟩ := Outcome.bind_eq_ok.mp ok
  split at ok
  · rename_i yes
    subst yes
    dsimp only at ok
    have same := bcastHeartbeat_office (done_eq_ok ok)
    have serves := Serves.queue kind several now
    refine ⟨[], ?_, ?_⟩
    · rw [show r'.readOnly = _ from congrArg Office.readOnly same,
        show r'.pendingReadIndexRequests = _ from congrArg Office.parked same]
      exact serves
    · exact (replies_nil same).of_office rfl rfl rfl
  · rename_i no
    have early : current = false := by simpa using no
    subst early
    cases ok
    exact ⟨[], .park kind several now, (replies_nil rfl).of_office rfl rfl rfl⟩

theorem stepLeader_served (ok : r.stepLeader m = .ok (r', e)) (leads : r'.state = .leader) : Served r m r' := by
  unfold stepLeader at ok
  split at ok <;> rename_i kind
  · exact stepAppResp_served kind ok
  · refine served_idle ?_ (by simp [kind]) (by simp [kind])
    split at ok
    · cases ok
      rfl
    · split at ok
      · cases ok
      · obtain ⟨r1, appended, ok⟩ := Outcome.bind_eq_ok.mp (done_eq_ok ok)
        exact (bcastAppend_office ok).trans (appendEntry_office appended)
  · exact served_idle (bcastHeartbeat_office (done_eq_ok ok)) (by simp [kind]) (by simp [kind])
  · exact stepHeartbeatResp_served kind (done_eq_ok ok)
  · exact stepReadIndex_served kind ok
  · refine served_idle ?_ (by simp [kind]) (by simp [kind])
    cases ok
    unfold stepCheckQuorum at leads ⊢
    split at leads
    · rw [if_pos ‹_›]
      rfl
    · simp at leads
  · exact served_idle (stepTransferLeader_office (done_eq_ok ok)) (by simp [kind]) (by simp [kind])
  · cases ok
    exact served_idle rfl ‹_› (fun wrong => absurd wrong ‹_›)

/-! A new leader starts with an empty office. -/

def Clear (r : Raft) : Prop := r.readOnly = ReadOnly.newReadOnly ∧ r.pendingReadIndexRequests = []

theorem becomeLeader_clear (ok : r.becomeLeader = .ok r') : r'.Clear := by
  obtain ⟨led, taken, ok⟩ := Outcome.bind_eq_ok.mp ok
  obtain ⟨noop, appended, ok⟩ := Outcome.bind_eq_ok.mp ok
  have took := takeLead_spec taken
  have same : r'.office = led.office := (bcastAppend_office ok).trans (appendEntry_office appended)
  exact ⟨(congrArg Office.readOnly same).trans took.readOnly,
    (congrArg Office.parked same).trans took.pendingReadIndexRequests⟩

theorem hupElection_clear (ok : r.hupElection = .ok r') (role : r.state ≠ .leader) (leads : r'.state = .leader) :
    r'.Clear := by
  have stood := (becomeCandidate_ballot r).1
  unfold hupElection at ok
  rw [if_neg role] at ok
  simp only [becomeCandidate_id] at ok
  split at ok
  · exact becomeLeader_clear ok
  · have state := congrArg Ballot.state ((bcastVote_ballot ok (.inl rfl)).1.trans stood)
    rw [show r'.ballot.state = .leader from leads] at state
    cases state

theorem hup_clear {t : CampaignType} (ok : r.hup t = .ok r') (role : r.state ≠ .leader) (leads : r'.state = .leader) :
    r'.Clear := by
  have polled := (becomePreCandidate_ballot r).1
  unfold hup at ok
  rw [if_neg role] at ok
  split at ok
  · simp only [show r.becomePreCandidate.id = r.id from rfl] at ok
    split at ok
    · exact hupElection_clear ok (by simp [recordVote, becomePreCandidate]) leads
    · have state := congrArg Ballot.state ((bcastVote_ballot ok (.inr rfl)).1.trans polled)
      rw [show r'.ballot.state = .leader from leads] at state
      cases state
  · exact hupElection_clear ok role leads

theorem stepVoteResp_clear (ok : r.stepVoteResp m = .ok r') (role : r.state ≠ .leader) (leads : r'.state = .leader) :
    r'.Clear := by
  unfold stepVoteResp at ok
  split at ok
  · cases ok
    exact absurd leads role
  dsimp only at ok
  split at ok
  · split at ok
    · simp only [becomeCandidate_id] at ok
      have state := congrArg Ballot.state ((bcastVote_ballot ok (.inl rfl)).1.trans (becomeCandidate_ballot _).1)
      rw [show r'.ballot.state = .leader from leads] at state
      cases state
    · exact becomeLeader_clear ok
  · cases ok
    simp at leads
  · cases ok
    exact absurd leads role

theorem stepCandidate_clear (ok : r.stepCandidate m = .ok (r', e)) (role : r.state ≠ .leader)
    (leads : r'.state = .leader) : r'.Clear := by
  by_cases kind : m.type = r.voteRespType
  · have voted : r.stepVoteResp m = .ok r' := by
      unfold stepCandidate at ok
      unfold voteRespType at kind
      split at ok
      all_goals first
        | (rename_i other; rw [other] at kind; split at kind <;> cases kind)
        | skip
      rw [if_pos (show m.type = r.voteRespType from kind)] at ok
      exact done_eq_ok ok
    exact stepVoteResp_clear voted role leads
  · have moved := congrArg Ballot.state (stepCandidate_ballot ok).1
    rw [show r'.ballot.state = .leader from leads] at moved
    unfold Ballot.stepCandidate at moved
    split at moved
    · cases moved
    · cases moved
    · cases moved
    · rw [if_neg (show ¬ m.type = r.ballot.voteRespType from kind)] at moved
      exact absurd moved.symm role

/-- Only a won election makes a leader of another node. -/
theorem stepRole_clear (ok : r.stepRole m = .ok (r', e)) (role : r.state ≠ .leader) (leads : r'.state = .leader) :
    r'.Clear := by
  unfold stepRole at ok
  split at ok <;> rename_i state
  · by_cases kind : m.type = .msgTimeoutNow
    · simp only [stepFollower, kind] at ok
      exact hup_clear (done_eq_ok ok) role leads
    · have moved := congrArg Ballot.state (stepFollower_ballot state ok).1
      rw [show r'.ballot.state = .leader from leads] at moved
      unfold Ballot.stepFollower at moved
      split at moved
      · exact absurd moved.symm role
      · exact absurd moved.symm role
      · exact absurd moved.symm role
      · exact absurd ‹_› kind
      · exact absurd moved.symm role
  · exact stepCandidate_clear ok role leads
  · exact stepCandidate_clear ok role leads
  · exact absurd state role

theorem stepType_clear (ok : r.stepType m = .ok (r', e)) (role : r.state ≠ .leader) (leads : r'.state = .leader) :
    r'.Clear := by
  unfold stepType at ok
  split at ok
  · obtain ⟨granted, _, ok⟩ := Outcome.bind_eq_ok.mp ok
    have sent := send_eq_ok (done_eq_ok ok)
    exact absurd (by simpa [sent] using leads) role
  · obtain ⟨granted, _, ok⟩ := Outcome.bind_eq_ok.mp ok
    have sent := send_eq_ok (done_eq_ok ok)
    refine absurd ?_ role
    rw [sent] at leads
    simp only [enqueue_state] at leads
    split at leads <;> exact leads
  · exact hup_clear (done_eq_ok ok) role leads
  · exact stepRole_clear ok role leads

theorem stepType_served (ok : r.stepType m = .ok (r', e)) (role : r.state = .leader) (leads : r'.state = .leader) :
    Served r m r' := by
  unfold stepType at ok
  split at ok <;> rename_i kind
  · obtain ⟨granted, _, ok⟩ := Outcome.bind_eq_ok.mp ok
    exact served_idle (send_office (done_eq_ok ok) (by simp)) (by simp [kind]) (by simp [kind])
  · obtain ⟨granted, _, ok⟩ := Outcome.bind_eq_ok.mp ok
    refine served_idle ((send_office (done_eq_ok ok) (by simp)).trans ?_) (by simp [kind]) (by simp [kind])
    split <;> rfl
  · have done := done_eq_ok ok
    rw [hup, if_pos role] at done
    cases done
    exact served_idle rfl (by simp [kind]) (by simp [kind])
  · unfold stepRole at ok
    rw [role] at ok
    exact stepLeader_served ok leads

end Raft

namespace Ballot

theorem elect_raises {b : Ballot} (role : b.state ≠ .leader) : b.term < b.elect.term := by
  rcases elect_cases b with ⟨leads, _⟩ | ⟨same, _⟩ | same
  · exact absurd leads role
  · rw [same]
    exact Nat.lt_succ_self b.term
  · rw [same]
    exact Nat.lt_succ_self b.term

/-- A follower that comes out of a call as leader has gone to a later term. -/
theorem follower_raises {b : Ballot} {answers : Answers} {m : Message} (role : b.state = .follower)
    (leads : (b.stepType answers m).state = .leader) : b.term < (b.stepType answers m).term := by
  have other : b.state ≠ .leader := by simp [role]
  unfold stepType at leads ⊢
  split at leads
  · exact absurd leads other
  · split at leads <;> exact absurd leads other
  · rcases hup_cases b with ⟨wrong, _⟩ | ⟨same, _⟩ | same
    · exact absurd wrong other
    · rw [same]
      exact (elect_raises (b := b.poll) (by simp [poll, record])).trans_le' le_rfl
    · rw [same] at leads
      cases leads
  · unfold stepRole at leads ⊢
    simp only [role] at leads ⊢
    unfold stepFollower at leads ⊢
    split at leads
    · exact absurd leads other
    · exact absurd leads other
    · exact absurd leads other
    · exact elect_raises other
    · exact absurd leads other

/-- A leader that does not learn of a later term stays in its own. -/
theorem leader_keeps_term {b : Ballot} {answers : Answers} {m : Message} (role : b.state = .leader) :
    (b.stepType answers m).term = b.term := by
  unfold stepType
  split
  · rfl
  · split <;> rfl
  · rcases hup_cases b with ⟨_, same⟩ | ⟨same, _⟩ | same
    · rw [same]
    · unfold hup
      rw [if_pos role]
    · unfold hup
      rw [if_pos role]
  · unfold stepRole
    simp only [role]
    unfold stepLeader
    split
    · split <;> rfl
    · rfl

end Ballot

namespace Raft

variable {r r' : Raft} {m : Message} {e : Option StepError}

/-- A call that ends in leadership serves the readers of the leader that was there before, or
begins a new leadership. -/
theorem step_served (ok : r.step m = .ok (r', e)) (leads : r'.state = .leader) :
    r.state = .leader ∧ r'.term = r.term ∧ Served r m r' ∨
      ¬ (r.state = .leader ∧ r'.term = r.term) ∧ r'.Clear := by
  obtain ⟨r1, checked, typed⟩ := Outcome.bind_eq_ok.mp ok
  obtain ⟨answers, moved, _⟩ := stepType_ballot typed
  have term : r'.term = (r1.ballot.stepType answers m).term := congrArg Ballot.term moved
  have state : (r1.ballot.stepType answers m).state = .leader := (congrArg Ballot.state moved).symm.trans leads
  -- the office that the check of the term leaves behind is the same unless the node follows
  have stays : r1 = r ∨ m.type = .msgPreVote ∧ r1.office = r.office ∧ r1.state = r.state ∧ r1.term = r.term ∨
      r1 = r.becomeFollower m.term m.fromId ∧ r.term < m.term := by
    unfold checkTerm at checked
    split at checked
    · cases checked
      exact .inl rfl
    split at checked
    · split at checked
      · cases checked
        exact .inl rfl
      · cases checked
        exact .inr (.inr ⟨rfl, ‹_›⟩)
    split at checked
    · rename_i old
      refine .inr (.inl ⟨old.2, send_office checked (by simp), ?_, ?_⟩) <;> rw [send_eq_ok checked] <;> simp
    · cases checked
      exact .inl rfl
  rcases stays with rfl | ⟨kind, office, role, now⟩ | ⟨rfl, later⟩
  · by_cases role : r1.state = .leader
    · exact .inl ⟨role, term.trans (Ballot.leader_keeps_term role), stepType_served typed role leads⟩
    · exact .inr ⟨fun wrong => role wrong.1, stepType_clear typed role leads⟩
  · by_cases before : r.state = .leader
    · refine .inl ⟨before, ?_, ?_⟩
      · rw [term, Ballot.leader_keeps_term (role.trans before)]
        exact now
      · obtain ⟨granted, _, sent⟩ : ∃ granted, r1.grants m = .ok granted ∧
            r1.respondVote m.fromId granted .msgPreVoteResp m.term = .ok r' := by
          simp only [stepType, kind] at typed
          obtain ⟨granted, asked, done⟩ := Outcome.bind_eq_ok.mp typed
          exact ⟨granted, asked, done_eq_ok done⟩
        exact served_idle ((send_office sent (by simp)).trans office) (by simp [kind]) (by simp [kind])
    · exact .inr ⟨fun wrong => before wrong.1, stepType_clear typed (role ▸ before) leads⟩
  · have raised := Ballot.follower_raises (by simp [ballot]) state
    refine .inr ⟨fun wrong => ?_, stepType_clear typed (by simp) leads⟩
    have start : (r.becomeFollower m.term m.fromId).ballot.term = m.term := by simp [ballot]
    rw [start, ← term, wrong.2] at raised
    omega

/-- A message of the leader's own timer. -/
theorem timer_office (ok : r.stepQuietly m = .ok r') (zero : m.term = 0)
    (kind : m.type = .msgBeat ∨ m.type = .msgCheckQuorum) (role : r.state = .leader) (leads : r'.state = .leader) :
    r'.office = r.office := by
  obtain ⟨e, stepped⟩ := stepQuietly_eq_ok ok
  obtain ⟨r1, checked, typed⟩ := Outcome.bind_eq_ok.mp stepped
  rw [checkTerm, if_pos zero] at checked
  cases checked
  rcases kind with kind | kind
  · simp only [stepType, kind, stepRole, role, stepLeader] at typed
    exact bcastHeartbeat_office (done_eq_ok typed)
  · simp only [stepType, kind, stepRole, role, stepLeader] at typed
    cases typed
    unfold stepCheckQuorum at leads ⊢
    split at leads
    · rw [if_pos ‹_›]
      rfl
    · simp at leads

theorem tick_office (ok : r.tick = .ok r') (role : r.state = .leader) (leads : r'.state = .leader) :
    r'.office = r.office := by
  unfold tick at ok
  rw [if_pos role] at ok
  obtain ⟨r1, first, ok⟩ := Outcome.bind_eq_ok.mp ok
  have between : r1.state = .leader ∧ r'.office = r1.office := by
    split at ok
    · have before : r1.state = .leader :=
        (congrArg Ballot.state (beat_ballot (m := {}) ok).1).symm.trans leads
      exact ⟨before, (timer_office ok rfl (.inl rfl) before leads).trans rfl⟩
    · cases ok
      exact ⟨leads, rfl⟩
  refine between.2.trans ?_
  unfold tickQuorum at first
  split at first
  · obtain ⟨r2, checked, first⟩ := Outcome.bind_eq_ok.mp first
    have aborted : r1.office = r2.office ∧ r1.state = r2.state := by
      cases first
      split <;> exact ⟨rfl, rfl⟩
    exact aborted.1.trans ((timer_office checked rfl (.inr rfl) role (aborted.2 ▸ between.1)).trans rfl)
  · cases first
    rfl

structure Passes (r : Raft) (i : Input) (r' : Raft) : Prop where
  plain : ∀ m, r.message i = some m → m.type ≠ .msgReadIndex ∧ m.type ≠ .msgHeartbeatResp
  readOnly : r'.readOnly = r.readOnly
  parked : r'.pendingReadIndexRequests = r.pendingReadIndexRequests
  answered : r.office.answered r'.office = []

theorem passes_office {i : Input} (same : r'.office = r.office)
    (plain : ∀ m, r.message i = some m → m.type ≠ .msgReadIndex ∧ m.type ≠ .msgHeartbeatResp) : Passes r i r' :=
  ⟨plain, congrArg Office.readOnly same, congrArg Office.parked same, by rw [same, answered_same rfl rfl]⟩

theorem tick_term (ok : r.tick = .ok r') (role : r.state = .leader) : r'.term = r.term := by
  have kind : r.timer = { type := .msgCheckQuorum } := if_pos role
  rcases tick_turn ok with ⟨⟨answers, moved⟩, _⟩ | ⟨same, _⟩
  · have stays : r.ballot.checkTerm r.timer = r.ballot := by
      rw [kind]
      simp [Ballot.checkTerm]
    have term : r'.term = ((r.ballot.checkTerm r.timer).stepType answers r.timer).term := congrArg Ballot.term moved
    rw [stays] at term
    exact term.trans (Ballot.leader_keeps_term role)
  · exact congrArg Ballot.term same

/-- The same for every input. -/
theorem play_served {i : Input} (ok : r.play i = .ok r') (leads : r'.state = .leader) :
    r.state = .leader ∧ r'.term = r.term ∧ ((∃ m, r.message i = some m ∧ Served r m r') ∨ Passes r i r') ∨
      ¬ (r.state = .leader ∧ r'.term = r.term) ∧ r'.Clear := by
  have call : ∀ m, r.message i = some m → (do .ok (← r.step m).1 : Except Panic Raft) = .ok r' →
      r.state = .leader ∧ r'.term = r.term ∧ ((∃ m, r.message i = some m ∧ Served r m r') ∨ Passes r i r') ∨
        ¬ (r.state = .leader ∧ r'.term = r.term) ∧ r'.Clear := by
    intro m here played
    obtain ⟨⟨r1, e⟩, stepped, done⟩ := Outcome.bind_eq_ok.mp played
    cases done
    rcases step_served stepped leads with ⟨role, term, served⟩ | new
    · exact .inl ⟨role, term, .inl ⟨m, here, served⟩⟩
    · exact .inr new
  cases i with
  | step m =>
    simp only [play] at ok
    by_cases own : isLocalMsg m.type = true
    · rw [if_pos own] at ok
      cases ok
      exact .inl ⟨leads, rfl, .inr (passes_office rfl (by simp [message, own]))⟩
    · rw [if_neg own] at ok
      exact call m (if_neg own) ok
  | propose data => exact call _ rfl ok
  | campaign => exact call _ rfl ok
  | readIndex ctx => exact call _ rfl ok
  | tick =>
    by_cases role : r.state = .leader
    · refine .inl ⟨role, tick_term ok role, .inr (passes_office (tick_office ok role leads) ?_)⟩
      rintro m ⟨⟩
      simp [timer, role]
    · simp only [play, tick, if_neg role, tickElection] at ok
      split at ok
      · obtain ⟨e, stepped⟩ := stepQuietly_eq_ok ok
        rcases step_served stepped leads with ⟨wrong, _⟩ | new
        · exact absurd wrong role
        · exact .inr ⟨fun wrong => role wrong.1, new.2⟩
      · cases ok
        exact absurd leads role
  | accept =>
    cases ok
    exact .inl ⟨leads, rfl, .inr (passes_office rfl (by simp [message]))⟩
  | advance rd =>
    cases ok
    exact .inl ⟨leads, rfl, .inr ⟨by simp [message], rfl, rfl, by simp [Office.answered, office, advance]⟩⟩
  | store storage =>
    cases ok
    exact .inl ⟨leads, rfl, .inr (passes_office rfl (by simp [message]))⟩

end Raft

end Kvgo

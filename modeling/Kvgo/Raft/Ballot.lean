import Kvgo.Raft.Acts

/-! The election part of a node. `Ballot` holds the fields that decide who votes for whom
and who leads, and has the role changes of the node without its log, timers and
messages. What the log contributes is a pair of answers: whether a candidate's log is up to
date, and whether a quorum was heard from. Every call of `Step` is a step of the ballot, and
the new ballot accounts for the votes and the leader's messages that the call queues. -/

namespace Kvgo

structure Ballot where
  id : Nat
  voters : MajorityConfig
  state : State
  term : Nat
  votedFor : Nat
  votes : Nat → Option Bool
  lead : Nat

structure Answers where
  upToDate : Bool
  quorumActive : Bool
  deriving DecidableEq

namespace Ballot

def tally (b : Ballot) : VoteResult := b.voters.voteResult b.votes

def record (b : Ballot) (p : Nat) (v : Bool) : Ballot :=
  { b with votes := Function.update b.votes p (some v) }

def follow (b : Ballot) (term lead : Nat) : Ballot :=
  { b with
    state := .follower
    term
    votedFor := if b.term ≠ term then None else b.votedFor
    votes := fun _ => none
    lead }

def poll (b : Ballot) : Ballot := ({ b with state := .preCandidate, lead := None } : Ballot).record b.id true

def stand (b : Ballot) : Ballot :=
  ({ b with
    state := .candidate, term := b.term + 1, votedFor := b.id, votes := fun _ => none
    lead := None } : Ballot).record b.id true

def win (b : Ballot) : Ballot := { b with state := .leader, votes := fun _ => none, lead := b.id }

def elect (b : Ballot) : Ballot :=
  if b.state = .leader then b else if b.stand.tally = .voteWon then b.stand.win else b.stand

def hup (b : Ballot) : Ballot :=
  if b.state = .leader then b else if b.poll.tally = .voteWon then b.poll.elect else b.poll

def count (b : Ballot) (m : Message) : Ballot :=
  if m.term < b.term then b
  else
    let b := b.record m.fromId (!m.reject)
    match b.tally with
    | .voteWon => if b.state = .preCandidate then b.stand else b.win
    | .voteLost => b.follow b.term None
    | .votePending => b

def voteRespType (b : Ballot) : MessageType :=
  if b.state = .candidate then .msgVoteResp else .msgPreVoteResp

def canVoteFor (b : Ballot) (m : Message) : Bool :=
  !(decide (m.term < b.term)) &&
    !(decide (m.term = b.term) && decide (b.votedFor ≠ None) && decide (b.votedFor ≠ m.fromId))

def checkTerm (b : Ballot) (m : Message) : Ballot :=
  if m.term ≠ 0 ∧ b.term < m.term ∧ ¬ (m.type = .msgPreVote ∨ m.type = .msgPreVoteResp) then
    b.follow m.term m.fromId
  else b

def stepFollower (b : Ballot) (m : Message) : Ballot :=
  match m.type with
  | .msgApp | .msgSnap | .msgHeartbeat => { b with lead := m.fromId }
  | .msgTimeoutNow => b.elect
  | _ => b

def stepCandidate (b : Ballot) (m : Message) : Ballot :=
  match m.type with
  | .msgApp | .msgHeartbeat | .msgSnap => b.follow m.term m.fromId
  | type => if type = b.voteRespType then b.count m else b

def stepLeader (answers : Answers) (b : Ballot) (m : Message) : Ballot :=
  match m.type with
  | .msgCheckQuorum => if answers.quorumActive then b else b.follow b.term None
  | _ => b

def stepRole (answers : Answers) (b : Ballot) (m : Message) : Ballot :=
  match b.state with
  | .follower => b.stepFollower m
  | .preCandidate => b.stepCandidate m
  | .candidate => b.stepCandidate m
  | .leader => b.stepLeader answers m

def stepType (answers : Answers) (b : Ballot) (m : Message) : Ballot :=
  match m.type with
  | .msgPreVote => b
  | .msgVote => if b.canVoteFor m && answers.upToDate then { b with votedFor := m.fromId } else b
  | .msgHup => b.hup
  | _ => b.stepRole answers m

def step (answers : Answers) (b : Ballot) (m : Message) : Ballot := (b.checkTerm m).stepType answers m

theorem stepType_preVote {answers : Answers} {b : Ballot} {m : Message} (kind : m.type = .msgPreVote) :
    b.stepType answers m = b := by
  simp only [stepType, kind]

theorem stepType_vote {answers : Answers} {b : Ballot} {m : Message} (kind : m.type = .msgVote) :
    b.stepType answers m =
      if b.canVoteFor m && answers.upToDate then { b with votedFor := m.fromId } else b := by
  simp only [stepType, kind]

theorem stepType_hup {answers : Answers} {b : Ballot} {m : Message} (kind : m.type = .msgHup) :
    b.stepType answers m = b.hup := by
  simp only [stepType, kind]

theorem stepType_other {answers : Answers} {b : Ballot} {m : Message} (preVote : m.type ≠ .msgPreVote)
    (vote : m.type ≠ .msgVote) (hup : m.type ≠ .msgHup) : b.stepType answers m = b.stepRole answers m := by
  unfold stepType
  split
  · exact absurd ‹_› preVote
  · exact absurd ‹_› vote
  · exact absurd ‹_› hup
  · rfl

end Ballot

def isGrant (msg : Message) : Bool := msg.type == .msgVoteResp && !msg.reject

def isHail (msg : Message) : Bool := msg.type == .msgApp || msg.type == .msgHeartbeat || msg.type == .msgSnap

def Ballot.Plain (b : Ballot) (msg : Message) : Prop :=
  isGrant msg = false ∧ (isHail msg = true → b.state = .leader ∧ msg.term = b.term ∧ msg.fromId = b.id)

namespace Raft

def ballot (r : Raft) : Ballot where
  id := r.id
  voters := r.trk.voters
  state := r.state
  term := r.term
  votedFor := r.votedFor
  votes := r.trk.votes
  lead := r.lead

def Queues (P : Message → Prop) (r r' : Raft) : Prop :=
  ∃ new new', r'.messages = r.messages ++ new ∧ r'.msgsAfterAppend = r.msgsAfterAppend ++ new' ∧
    (∀ msg ∈ new ++ new', P msg) ∧ ∀ msg ∈ new', afterAppend msg.type = true

def Moves (b : Ballot) (r r' : Raft) : Prop := r'.ballot = b ∧ Queues b.Plain r r'

variable {r r' r'' : Raft} {m : Message} {e : Option StepError} {P Q : Message → Prop}

theorem Queues.refl : Queues P r r := ⟨[], [], by simp⟩

theorem Queues.mono (queues : Queues P r r') (weaker : ∀ msg, P msg → Q msg) : Queues Q r r' := by
  obtain ⟨new, new', messages, after, each, kind⟩ := queues
  exact ⟨new, new', messages, after, fun msg inside => weaker msg (each msg inside), kind⟩

theorem Queues.trans (first : Queues P r r') (second : Queues P r' r'') : Queues P r r'' := by
  obtain ⟨new, new', messages, after, each, kind⟩ := first
  obtain ⟨more, more', messages', after', each', kind'⟩ := second
  refine ⟨new ++ more, new' ++ more', by rw [messages', messages, List.append_assoc],
    by rw [after', after, List.append_assoc], fun msg inside => ?_, fun msg inside => ?_⟩
  · simp only [List.mem_append] at inside each each'
    rcases inside with (old | new) | (old | new)
    · exact each msg (.inl old)
    · exact each' msg (.inl new)
    · exact each msg (.inr old)
    · exact each' msg (.inr new)
  · exact (List.mem_append.mp inside).elim (kind msg) (kind' msg)

theorem Queues.of_eq (messages : r'.messages = r.messages) (after : r'.msgsAfterAppend = r.msgsAfterAppend) :
    Queues P r r' := ⟨[], [], by simpa using messages, by simpa using after, by simp, by simp⟩

theorem queues_enqueue {msg : Message} (holds : P msg) : Queues P r (r.enqueue msg) := by
  unfold enqueue
  split
  · rename_i kind
    exact ⟨[], [msg], by simp [holds, kind]⟩
  · exact ⟨[msg], [], by simp [holds]⟩

theorem Moves.silent {b : Ballot} (same : r'.ballot = b) (messages : r'.messages = r.messages)
    (after : r'.msgsAfterAppend = r.msgsAfterAppend) : Moves b r r' := ⟨same, .of_eq messages after⟩

theorem Moves.refl (r : Raft) : Moves r.ballot r r := ⟨rfl, .refl⟩

theorem Moves.trans {b : Ballot} (first : Moves b r r') (second : Moves b r' r'') : Moves b r r'' :=
  ⟨second.1, first.2.trans second.2⟩

theorem Moves.after {b : Ballot} (moves : Moves r'.ballot r' r'') (same : r'.ballot = b)
    (messages : r'.messages = r.messages) (after : r'.msgsAfterAppend = r.msgsAfterAppend) : Moves b r r'' := by
  rw [same] at moves
  exact (Moves.silent same messages after).trans moves

/-! Sending. -/

@[simp] theorem ballot_enqueue (r : Raft) (msg : Message) : (r.enqueue msg).ballot = r.ballot := by
  unfold enqueue
  split <;> rfl

theorem send_ballot {msg : Message} (ok : r.send msg = .ok r') (plain : r.ballot.Plain (r.stamp msg)) :
    Moves r.ballot r r' := by
  rw [send_eq_ok ok]
  exact ⟨ballot_enqueue r _, queues_enqueue plain⟩

theorem stamp_plain {msg : Message} (b : Ballot) (vote : isGrant msg = false) (other : isHail msg = false) :
    b.Plain (r.stamp msg) := by
  have grant : isGrant (r.stamp msg) = isGrant msg := by simp [isGrant]
  have hail : isHail (r.stamp msg) = isHail msg := by simp [isHail]
  exact ⟨grant.trans vote, fun wrong => by simp [hail, other] at wrong⟩

theorem send_other {msg : Message} (ok : r.send msg = .ok r') (vote : isGrant msg = false)
    (other : isHail msg = false) : Moves r.ballot r r' :=
  send_ballot ok (stamp_plain r.ballot vote other)

theorem send_leader {msg : Message} (role : r.state = .leader) (sender : msg.fromId = None)
    (hail : isHail msg = true) (ok : r.send msg = .ok r') : Moves r.ballot r r' := by
  refine send_ballot ok ⟨?_, fun _ => ⟨role, ?_, ?_⟩⟩
  · simp only [isHail, Bool.or_eq_true, beq_iff_eq] at hail
    rcases hail with (kind | kind) | kind <;> simp [isGrant, kind]
  · simp only [isHail, Bool.or_eq_true, beq_iff_eq] at hail
    unfold stamp
    rcases hail with (kind | kind) | kind <;> simp [sender, kind, ballot]
  · simp [sender, ballot]

theorem foldlM_ballot {α : Type} {f : Raft → α → Except Panic Raft} {xs : List α}
    (each : ∀ s x s', s.ballot = r.ballot → f s x = .ok s' → Moves s.ballot s s')
    (ok : xs.foldlM f r = .ok r') : Moves r.ballot r r' := by
  refine (Outcome.foldlM_rel (Moves r.ballot r) (fun _ _ => True) (fun s x s' _ moves done => ?_)
    (Moves.refl r) ok).1
  have next := each s x s' moves.1 done
  rw [moves.1] at next
  exact ⟨moves.trans next, .single trivial⟩

theorem sendAppend_ballot {target : Nat} (role : r.state = .leader) (ok : r.sendAppend target = .ok r') :
    Moves r.ballot r r' := by
  unfold sendAppend at ok
  split at ok
  · cases ok
    exact .refl r
  · obtain ⟨found, _, ok⟩ := Outcome.bind_eq_ok.mp ok
    cases found with
    | none => exact send_leader role rfl rfl ok
    | some prevTerm =>
      obtain ⟨entries, _, ok⟩ := Outcome.bind_eq_ok.mp ok
      exact send_leader role rfl rfl ok

theorem state_of_ballot {s : Raft} (same : s.ballot = r.ballot) (role : r.state = .leader) :
    s.state = .leader := (congrArg Ballot.state same).trans role

theorem bcastAppend_ballot (role : r.state = .leader) (ok : r.bcastAppend = .ok r') : Moves r.ballot r r' := by
  refine foldlM_ballot (fun s id s' same sent => ?_) ok
  split at sent
  · cases sent
    exact .refl s
  · exact sendAppend_ballot (state_of_ballot same role) sent

theorem bcastHeartbeat_ballot {ctx : Bytes} (role : r.state = .leader) (ok : r.bcastHeartbeat ctx = .ok r') :
    Moves r.ballot r r' := by
  refine foldlM_ballot (fun s id s' same sent => ?_) ok
  split at sent
  · cases sent
    exact .refl s
  · unfold sendHeartbeat at sent
    split at sent
    · cases sent
      exact .refl s
    · exact send_leader (state_of_ballot same role) rfl rfl sent

theorem bcastVote_ballot {type : MessageType} {term : Nat} (ok : r.bcastVote type term = .ok r')
    (kind : type = .msgVote ∨ type = .msgPreVote) : Moves r.ballot r r' := by
  obtain ⟨last, _, ok⟩ := Outcome.bind_eq_ok.mp ok
  refine foldlM_ballot (fun s pid s' _ sent => ?_) ok
  rcases kind with rfl | rfl
  · exact send_other sent rfl rfl
  · exact send_other sent rfl rfl

/-! Role changes. -/

theorem becomeFollower_ballot (r : Raft) (term lead : Nat) :
    Moves (r.ballot.follow term lead) r (r.becomeFollower term lead) := by
  refine .silent ?_ (by simp) (by simp)
  by_cases same : r.term = term <;> simp [ballot, Ballot.follow, same]

theorem becomePreCandidate_ballot (r : Raft) :
    Moves r.ballot.poll r (r.becomePreCandidate.recordVote r.id true) := .silent rfl rfl rfl

theorem becomeCandidate_ballot (r : Raft) :
    Moves r.ballot.stand r (r.becomeCandidate.recordVote r.id true) := by
  refine .silent ?_ (by simp [recordVote, becomeCandidate]) (by simp [recordVote, becomeCandidate])
  simp [ballot, Ballot.stand, Ballot.record, recordVote, ProgressTracker.recordVote, becomeCandidate]
  rfl

theorem appendEntry_ballot {data : Bytes} (ok : r.appendEntry data = .ok r') : Moves r.ballot r r' := by
  obtain ⟨raftLog, _, rfl⟩ := appendEntry_eq ok
  exact ⟨ballot_enqueue _ _, .trans (.of_eq rfl rfl) (queues_enqueue ⟨rfl, fun wrong => by cases wrong⟩)⟩

theorem becomeLeader_ballot (ok : r.becomeLeader = .ok r') : Moves r.ballot.win r r' := by
  obtain ⟨led, taken, ok⟩ := Outcome.bind_eq_ok.mp ok
  obtain ⟨noop, appended, ok⟩ := Outcome.bind_eq_ok.mp ok
  have took := takeLead_spec taken
  have won : led.ballot = r.ballot.win := by
    unfold takeLead at taken
    simp only at taken
    split at taken
    · cases taken
    · cases taken
      simp [ballot, Ballot.win]
  have first := appendEntry_ballot appended
  have second := bcastAppend_ballot ((appendEntry_state appended).trans took.state) ok
  rw [first.1] at second
  exact (first.trans second).after won took.messages took.msgsAfterAppend

theorem hupElection_ballot (ok : r.hupElection = .ok r') : Moves r.ballot.elect r r' := by
  have stood := becomeCandidate_ballot r
  unfold hupElection at ok
  unfold Ballot.elect
  by_cases leads : r.state = .leader
  · rw [if_pos leads] at ok
    cases ok
    rw [if_pos (show r.ballot.state = .leader from leads)]
    exact .refl r
  · rw [if_neg leads] at ok
    rw [if_neg (show ¬ r.ballot.state = .leader from leads)]
    simp only [becomeCandidate_id] at ok
    have messages : (r.becomeCandidate.recordVote r.id true).messages = r.messages := by
      simp [recordVote]
    have after : (r.becomeCandidate.recordVote r.id true).msgsAfterAppend = r.msgsAfterAppend := by
      simp [recordVote, becomeCandidate]
    generalize r.becomeCandidate.recordVote r.id true = s at ok stood messages after
    rw [show s.trk.tallyVotes = r.ballot.stand.tally by rw [← stood.1]; rfl] at ok
    by_cases won : r.ballot.stand.tally = .voteWon
    · rw [if_pos won] at ok
      rw [if_pos won, ← stood.1]
      have led := becomeLeader_ballot ok
      exact ⟨led.1, .trans (.of_eq messages after) led.2⟩
    · rw [if_neg won] at ok
      rw [if_neg won]
      exact (bcastVote_ballot ok (.inl rfl)).after stood.1 messages after

theorem hup_ballot (ok : r.hup .campaignPreElection = .ok r') : Moves r.ballot.hup r r' := by
  have polled := becomePreCandidate_ballot r
  unfold hup at ok
  unfold Ballot.hup
  by_cases leads : r.state = .leader
  · rw [if_pos leads] at ok
    cases ok
    rw [if_pos (show r.ballot.state = .leader from leads)]
    exact .refl r
  · rw [if_neg leads, if_pos rfl] at ok
    rw [if_neg (show ¬ r.ballot.state = .leader from leads)]
    simp only [show r.becomePreCandidate.id = r.id from rfl] at ok
    rw [show (r.becomePreCandidate.recordVote r.id true).trk.tallyVotes = r.ballot.poll.tally from rfl] at ok
    by_cases won : r.ballot.poll.tally = .voteWon
    · rw [if_pos won] at ok
      rw [if_pos won, ← polled.1]
      have elected := hupElection_ballot ok
      exact ⟨elected.1, .trans (.of_eq rfl rfl) elected.2⟩
    · rw [if_neg won] at ok
      rw [if_neg won]
      exact (bcastVote_ballot ok (.inr rfl)).after polled.1 rfl rfl

theorem stepVoteResp_ballot (ok : r.stepVoteResp m = .ok r') : Moves (r.ballot.count m) r r' := by
  unfold stepVoteResp at ok
  unfold Ballot.count
  by_cases old : m.term < r.term
  · rw [if_pos old] at ok
    cases ok
    rw [if_pos (show m.term < r.ballot.term from old)]
    exact .refl r
  rw [if_neg old] at ok
  rw [if_neg (show ¬ m.term < r.ballot.term from old)]
  have recorded : Moves (r.ballot.record m.fromId (!m.reject)) r (r.recordVote m.fromId (!m.reject)) :=
    .silent rfl rfl rfl
  have messages : (r.recordVote m.fromId (!m.reject)).messages = r.messages := rfl
  have after : (r.recordVote m.fromId (!m.reject)).msgsAfterAppend = r.msgsAfterAppend := rfl
  generalize r.recordVote m.fromId (!m.reject) = s at ok recorded messages after
  rw [← recorded.1]
  simp only at ok ⊢
  rw [show s.trk.tallyVotes = s.ballot.tally from rfl] at ok
  cases tallied : s.ballot.tally with
  | voteWon =>
    simp only [tallied] at ok ⊢
    by_cases pre : s.state = .preCandidate
    · rw [if_pos pre] at ok
      rw [if_pos (show s.ballot.state = .preCandidate from pre)]
      simp only [becomeCandidate_id] at ok
      refine (bcastVote_ballot ok (.inl rfl)).after (becomeCandidate_ballot s).1 ?_ ?_
      · simpa [recordVote] using messages
      · simpa [recordVote, becomeCandidate] using after
    · rw [if_neg pre] at ok
      rw [if_neg (show ¬ s.ballot.state = .preCandidate from pre)]
      have led := becomeLeader_ballot ok
      exact ⟨led.1, .trans (.of_eq messages after) led.2⟩
  | voteLost =>
    simp only [tallied] at ok ⊢
    cases ok
    exact .silent (becomeFollower_ballot s s.term None).1 (by simpa using messages) (by simpa using after)
  | votePending =>
    simp only [tallied] at ok ⊢
    cases ok
    exact .silent rfl messages after

/-! The leader. -/

theorem respond_ballot {index : Nat} (ok : r.respondReadIndexReq m index = .ok r') : Moves r.ballot r r' := by
  unfold respondReadIndexReq at ok
  split at ok
  · cases ok
    exact .silent rfl rfl rfl
  · exact send_other ok rfl rfl

theorem drain_ballot (ok : r.drainPendingReadIndexRequests = .ok r') : Moves r.ballot r r' :=
  (foldlM_ballot (fun _ _ _ _ answered => respond_ballot answered) ok).after rfl rfl rfl

theorem sendSnapshotOnReject_ballot (role : r.state = .leader) (ok : r.sendSnapshotOnReject m = .ok r') :
    Moves r.ballot r r' := by
  unfold sendSnapshotOnReject at ok
  simp only at ok
  split at ok
  · exact send_leader role rfl rfl ok
  · cases ok
    exact .refl r

theorem finishTransfer_ballot {p : Progress} (ok : r.finishTransfer m p = .ok r') : Moves r.ballot r r' := by
  unfold finishTransfer at ok
  split at ok
  · exact send_other ok rfl rfl
  · cases ok
    exact .refl r

theorem maybeCommit_ballot {i : Nat} {advanced : Bool} (ok : r.maybeCommit i = .ok (r', advanced)) :
    Moves r.ballot r r' := by
  rcases maybeCommit_cases ok with ⟨_, rfl⟩ | ⟨_, raftLog, _, _, rfl⟩
  · exact .refl r'
  · exact .silent rfl rfl rfl

theorem stepAppResp_ballot (role : r.state = .leader) (ok : r.stepAppResp m = .ok (r', e)) :
    Moves r.ballot r r' := by
  unfold stepAppResp at ok
  split at ok
  · cases ok
    exact .refl r
  · obtain ⟨r1, first, ok⟩ := Outcome.bind_eq_ok.mp ok
    obtain ⟨r2, second, ok⟩ := Outcome.bind_eq_ok.mp ok
    obtain ⟨⟨r3, advanced⟩, third, ok⟩ := Outcome.bind_eq_ok.mp ok
    have upTo1 : Moves r.ballot r r1 := (sendSnapshotOnReject_ballot (by exact role) first).after rfl rfl rfl
    have upTo2 : Moves r1.ballot r1 r2 := (finishTransfer_ballot second).after rfl rfl rfl
    have upTo3 : Moves r2.ballot r2 r3 := maybeCommit_ballot third
    rw [upTo2.1, upTo1.1] at upTo3
    rw [upTo1.1] at upTo2
    have soFar : Moves r.ballot r r3 := (upTo1.trans upTo2).trans upTo3
    dsimp only at ok
    split at ok
    · have drained := drain_ballot (done_eq_ok ok)
      rw [soFar.1] at drained
      exact soFar.trans drained
    · cases ok
      exact soFar

theorem ackRead_ballot (ok : r.ackRead m = .ok r') : Moves r.ballot r r' := by
  unfold ackRead at ok
  split at ok
  · cases ok
    exact .refl r
  · dsimp only at ok
    split at ok
    · obtain ⟨⟨readOnly, rss⟩, _, ok⟩ := Outcome.bind_eq_ok.mp ok
      exact (foldlM_ballot (fun _ _ _ _ answered => respond_ballot answered) ok).after rfl rfl rfl
    · cases ok
      exact .silent rfl rfl rfl

theorem stepHeartbeatResp_ballot (role : r.state = .leader) (ok : r.stepHeartbeatResp m = .ok r') :
    Moves r.ballot r r' := by
  unfold stepHeartbeatResp at ok
  split at ok
  · cases ok
    exact .refl r
  · obtain ⟨r1, first, ok⟩ := Outcome.bind_eq_ok.mp ok
    have upTo1 : Moves r.ballot r r1 := by
      unfold catchUp at first
      split at first
      · exact (sendAppend_ballot (by exact role) first).after rfl rfl rfl
      · cases first
        exact .silent rfl rfl rfl
    have rest := ackRead_ballot ok
    rw [upTo1.1] at rest
    exact upTo1.trans rest

theorem stepReadIndex_ballot (role : r.state = .leader) (ok : r.stepReadIndex m = .ok (r', e)) :
    Moves r.ballot r r' := by
  unfold stepReadIndex at ok
  split at ok
  · exact respond_ballot (done_eq_ok ok)
  · obtain ⟨current, _, ok⟩ := Outcome.bind_eq_ok.mp ok
    split at ok
    · dsimp only at ok
      exact (bcastHeartbeat_ballot (by exact role) (done_eq_ok ok)).after rfl rfl rfl
    · cases ok
      exact .silent rfl rfl rfl

theorem stepTransferLeader_ballot (role : r.state = .leader) (ok : r.stepTransferLeader m = .ok r') :
    Moves r.ballot r r' := by
  unfold stepTransferLeader at ok
  dsimp only at ok
  have aborted : Moves r.ballot r (if r.leadTransferee ≠ None then r.abortLeaderTransfer else r) := by
    split
    · exact .silent rfl rfl rfl
    · exact .refl r
  generalize (if r.leadTransferee ≠ None then r.abortLeaderTransfer else r) = s at ok aborted
  split at ok
  · cases ok
    exact .refl r
  split at ok
  · cases ok
    exact aborted
  split at ok
  · cases ok
  · have leads : s.state = .leader := state_of_ballot aborted.1 role
    split at ok
    · have sent : Moves s.ballot s r' := (send_other ok rfl rfl).after rfl rfl rfl
      rw [aborted.1] at sent
      exact aborted.trans sent
    · have sent : Moves s.ballot s r' := (sendAppend_ballot (by exact leads) ok).after rfl rfl rfl
      rw [aborted.1] at sent
      exact aborted.trans sent

theorem stepLeader_ballot (role : r.state = .leader) (ok : r.stepLeader m = .ok (r', e)) :
    ∃ answers, Moves (r.ballot.stepLeader answers m) r r' := by
  refine ⟨⟨true, r.trk.quorumActive⟩, ?_⟩
  unfold stepLeader at ok
  unfold Ballot.stepLeader
  split at ok <;> rename_i kind <;> (try rw [kind])
  · exact stepAppResp_ballot role ok
  · split at ok
    · cases ok
      exact .refl r
    · split at ok
      · cases ok
      · obtain ⟨r1, appended, ok⟩ := Outcome.bind_eq_ok.mp (done_eq_ok ok)
        have first := appendEntry_ballot appended
        have second := bcastAppend_ballot (state_of_ballot first.1 role) ok
        rw [first.1] at second
        exact first.trans second
  · exact bcastHeartbeat_ballot role (done_eq_ok ok)
  · exact stepHeartbeatResp_ballot role (done_eq_ok ok)
  · exact stepReadIndex_ballot role ok
  · cases ok
    dsimp only
    unfold stepCheckQuorum
    split
    · exact .silent rfl rfl rfl
    · exact becomeFollower_ballot r r.term None
  · exact stepTransferLeader_ballot role (done_eq_ok ok)
  · cases ok
    split
    · rename_i other
      exact absurd other ‹_›
    · exact .refl r

/-! The other roles. -/

theorem handleAppendEntries_ballot (ok : r.handleAppendEntries m = .ok r') : Moves r.ballot r r' := by
  obtain ⟨matched, _, ok⟩ := Outcome.bind_eq_ok.mp ok
  cases matched with
  | true =>
    obtain ⟨appended, _, ok⟩ := Outcome.bind_eq_ok.mp ok
    obtain ⟨committed, _, ok⟩ := Outcome.bind_eq_ok.mp ok
    refine (send_other ok ?_ ?_).after rfl rfl rfl
    · simp [isGrant]
    · simp [isHail]
  | false =>
    rw [if_neg (by simp)] at ok
    exact send_other ok rfl rfl

theorem handleHeartbeat_ballot (ok : r.handleHeartbeat m = .ok r') : Moves r.ballot r r' := by
  obtain ⟨committed, _, ok⟩ := Outcome.bind_eq_ok.mp ok
  exact (send_other ok rfl rfl).after rfl rfl rfl

theorem handleSnapshot_ballot (ok : r.handleSnapshot m = .ok r') : Moves r.ballot r r' := by
  unfold handleSnapshot at ok
  split at ok
  · cases ok
  · split at ok <;> cases ok
    · exact .refl r
    · exact .silent rfl rfl rfl

theorem yield_ballot (moves : Moves (r.becomeFollower m.term m.fromId).ballot (r.becomeFollower m.term m.fromId) r') :
    Moves (r.ballot.follow m.term m.fromId) r r' :=
  moves.after (becomeFollower_ballot r m.term m.fromId).1 (by simp) (by simp)

theorem stepCandidate_ballot (ok : r.stepCandidate m = .ok (r', e)) :
    Moves (r.ballot.stepCandidate m) r r' := by
  unfold stepCandidate at ok
  unfold Ballot.stepCandidate
  have drop : ∀ type, type ≠ .msgVoteResp → type ≠ .msgPreVoteResp →
      (if type = r.ballot.voteRespType then r.ballot.count m else r.ballot) = r.ballot := by
    intro type real pre
    refine if_neg ?_
    unfold Ballot.voteRespType
    split
    · exact real
    · exact pre
  split at ok <;> rename_i kind <;> (try rw [kind])
  · cases ok
    simp only
    rw [drop _ (by simp) (by simp)]
    exact .refl r
  · exact yield_ballot (handleAppendEntries_ballot (done_eq_ok ok))
  · exact yield_ballot (handleHeartbeat_ballot (done_eq_ok ok))
  · exact yield_ballot (handleSnapshot_ballot (done_eq_ok ok))
  · cases ok
    simp only
    rw [drop _ (by simp) (by simp)]
    exact .refl r
  · split
    · exact absurd ‹_› ‹¬ m.type = .msgApp›
    · exact absurd ‹_› ‹¬ m.type = .msgHeartbeat›
    · exact absurd ‹_› ‹¬ m.type = .msgSnap›
    · by_cases awaited : m.type = r.voteRespType
      · rw [if_pos awaited] at ok
        rw [if_pos (show m.type = r.ballot.voteRespType from awaited)]
        exact stepVoteResp_ballot (done_eq_ok ok)
      · rw [if_neg awaited] at ok
        cases ok
        rw [if_neg (show ¬ m.type = r.ballot.voteRespType from awaited)]
        exact .refl r

theorem forward_ballot {orElse : Option StepError} (ok : r.forward m orElse = .ok (r', e))
    (vote : isGrant m = false) (other : isHail m = false) : Moves r.ballot r r' := by
  unfold forward at ok
  split at ok
  · cases ok
    exact .refl r
  · exact send_other (done_eq_ok ok) vote other

theorem stepFollower_ballot (role : r.state = .follower) (ok : r.stepFollower m = .ok (r', e)) :
    Moves (r.ballot.stepFollower m) r r' := by
  unfold stepFollower at ok
  unfold Ballot.stepFollower
  split at ok <;> rename_i kind <;> (try rw [kind])
  · exact forward_ballot ok (by simp [isGrant, kind]) (by simp [isHail, kind])
  · exact (handleAppendEntries_ballot (done_eq_ok ok)).after rfl rfl rfl
  · exact (handleSnapshot_ballot (done_eq_ok ok)).after rfl rfl rfl
  · exact (handleHeartbeat_ballot (done_eq_ok ok)).after rfl rfl rfl
  · exact forward_ballot ok (by simp [isGrant, kind]) (by simp [isHail, kind])
  · cases ok
    exact .silent rfl rfl rfl
  · have started := done_eq_ok ok
    unfold hup at started
    rw [if_neg (by simp [role]), if_neg (by simp)] at started
    exact hupElection_ballot started
  · exact forward_ballot ok (by simp [isGrant, kind]) (by simp [isHail, kind])
  · cases ok
    split
    · exact absurd ‹_› ‹¬ m.type = .msgApp›
    · exact absurd ‹_› ‹¬ m.type = .msgSnap›
    · exact absurd ‹_› ‹¬ m.type = .msgHeartbeat›
    · exact absurd ‹_› ‹¬ m.type = .msgTimeoutNow›
    · exact .refl r

theorem stepRole_ballot (ok : r.stepRole m = .ok (r', e)) :
    ∃ answers, Moves (r.ballot.stepRole answers m) r r' := by
  unfold stepRole at ok
  unfold Ballot.stepRole
  rw [show r.ballot.state = r.state from rfl]
  cases role : r.state with
  | follower =>
    simp only [role] at ok
    exact ⟨⟨true, true⟩, stepFollower_ballot role ok⟩
  | preCandidate =>
    simp only [role] at ok
    exact ⟨⟨true, true⟩, stepCandidate_ballot ok⟩
  | candidate =>
    simp only [role] at ok
    exact ⟨⟨true, true⟩, stepCandidate_ballot ok⟩
  | leader =>
    simp only [role] at ok
    exact stepLeader_ballot role ok

/-! The whole call. -/

/-- What the end of a call accounts for: a vote goes to the sender of a request for it, and a
leader's message to a leader of its term. -/
def Accounted (m : Message) (b : Ballot) (msg : Message) : Prop :=
  (isGrant msg = true → m.type = .msgVote ∧ msg.toId = m.fromId ∧ msg.term = b.term ∧ b.votedFor = m.fromId) ∧
    (isHail msg = true → b.state = .leader ∧ msg.term = b.term ∧ msg.fromId = b.id)

theorem accounted_of_plain {b : Ballot} {msg : Message} (plain : b.Plain msg) : Accounted m b msg :=
  ⟨fun wrong => by simp [plain.1] at wrong, plain.2⟩

theorem Moves.accounted {b : Ballot} (moves : Moves b r r') : r'.ballot = b ∧ Queues (Accounted m b) r r' :=
  ⟨moves.1, moves.2.mono (fun _ => accounted_of_plain)⟩

theorem checkTerm_ballot (ok : r.checkTerm m = .ok r') :
    r'.ballot = r.ballot.checkTerm m ∧ ∀ b, Queues (Accounted m b) r r' := by
  unfold checkTerm at ok
  unfold Ballot.checkTerm
  by_cases zero : m.term = 0
  · rw [if_pos zero] at ok
    cases ok
    rw [if_neg (fun h => h.1 zero)]
    exact ⟨rfl, fun _ => .refl⟩
  rw [if_neg zero] at ok
  by_cases later : r.term < m.term
  · rw [if_pos later] at ok
    by_cases pre : m.type = .msgPreVote ∨ m.type = .msgPreVoteResp
    · rw [if_pos pre] at ok
      cases ok
      rw [if_neg (fun h => h.2.2 pre)]
      exact ⟨rfl, fun _ => .refl⟩
    · rw [if_neg pre] at ok
      cases ok
      rw [if_pos ⟨zero, later, pre⟩]
      exact ⟨(becomeFollower_ballot r m.term m.fromId).1, fun _ => .of_eq (by simp) (by simp)⟩
  · rw [if_neg later] at ok
    rw [if_neg (fun h => later h.2.1)]
    split at ok
    · refine ⟨(send_other ok rfl rfl).1, fun b => ?_⟩
      rw [send_eq_ok ok]
      exact queues_enqueue (accounted_of_plain (stamp_plain b rfl rfl))
    · cases ok
      exact ⟨rfl, fun _ => .refl⟩

theorem stepType_ballot (ok : r.stepType m = .ok (r', e)) :
    ∃ answers, r'.ballot = r.ballot.stepType answers m ∧ Queues (Accounted m r'.ballot) r r' := by
  unfold stepType at ok
  split at ok <;> rename_i kind
  · obtain ⟨granted, _, ok⟩ := Outcome.bind_eq_ok.mp ok
    have moves : Moves r.ballot r r' := send_other (done_eq_ok ok) rfl rfl
    exact ⟨⟨true, true⟩, moves.1.trans (Ballot.stepType_preVote kind).symm, moves.1 ▸ moves.accounted.2⟩
  · obtain ⟨granted, asked, ok⟩ := Outcome.bind_eq_ok.mp ok
    have sent := send_eq_ok (done_eq_ok ok)
    cases granted with
    | true =>
      have can : r.ballot.canVoteFor m = true := by
        show r.canVoteFor m = true
        by_contra cannot
        unfold grants at asked
        rw [if_neg cannot] at asked
        cases asked
      refine ⟨⟨true, true⟩, ?_, ?_⟩
      · rw [Ballot.stepType_vote kind, sent, ballot_enqueue, can]
        rfl
      · rw [sent, ballot_enqueue]
        refine .trans (.of_eq rfl rfl) (queues_enqueue ⟨fun _ => ⟨kind, ?_, ?_, rfl⟩, fun wrong => ?_⟩)
        · simp
        · rfl
        · simp [isHail] at wrong
    | false =>
      refine ⟨⟨false, true⟩, ?_, ?_⟩
      · rw [Ballot.stepType_vote kind, sent, ballot_enqueue]
        simp
      · rw [sent, ballot_enqueue]
        exact .trans (.of_eq rfl rfl) (queues_enqueue (accounted_of_plain (stamp_plain _ rfl rfl)))
  · have moves := hup_ballot (done_eq_ok ok)
    exact ⟨⟨true, true⟩, moves.1.trans (Ballot.stepType_hup kind).symm, moves.1 ▸ moves.accounted.2⟩
  · obtain ⟨answers, moves⟩ := stepRole_ballot ok
    refine ⟨answers, moves.1.trans ?_, moves.1 ▸ moves.accounted.2⟩
    exact (Ballot.stepType_other ‹¬ m.type = .msgPreVote› ‹¬ m.type = .msgVote› ‹¬ m.type = .msgHup›).symm

/-- Every call of `Step` is a step of the ballot, and the new ballot accounts for what the
call queues. -/
theorem step_ballot (ok : r.step m = .ok (r', e)) :
    ∃ answers, r'.ballot = r.ballot.step answers m ∧ Queues (Accounted m r'.ballot) r r' := by
  obtain ⟨r1, checked, ok⟩ := Outcome.bind_eq_ok.mp ok
  obtain ⟨same, before⟩ := checkTerm_ballot checked
  obtain ⟨answers, moved, queues⟩ := stepType_ballot ok
  exact ⟨answers, by rw [moved, same, Ballot.step], (before r'.ballot).trans queues⟩

end Raft

namespace Ballot

inductive Moved (b : Ballot) (m : Message) : Ballot → Prop
  | keep : Moved b m b
  | heed (role : b.state = .follower) (kind : isHail m = true) : Moved b m { b with lead := m.fromId }
  | vote (kind : m.type = .msgVote) (can : b.canVoteFor m = true) : Moved b m { b with votedFor := m.fromId }
  | yield (role : b.state = .preCandidate ∨ b.state = .candidate) (kind : isHail m = true) :
      Moved b m (b.follow m.term m.fromId)
  | abdicate (role : b.state = .leader) : Moved b m (b.follow b.term None)
  | hup (kind : m.type = .msgHup) : Moved b m b.hup
  | transfer (role : b.state = .follower) (kind : m.type = .msgTimeoutNow) : Moved b m b.elect
  | count (role : b.state = .preCandidate ∨ b.state = .candidate) (kind : m.type = b.voteRespType) :
      Moved b m (b.count m)

variable {b b' : Ballot} {m : Message}

theorem stepFollower_moved (role : b.state = .follower) : Moved b m (b.stepFollower m) := by
  unfold stepFollower
  split
  · rename_i kind
    exact .heed role (by simp [isHail, kind])
  · rename_i kind
    exact .heed role (by simp [isHail, kind])
  · rename_i kind
    exact .heed role (by simp [isHail, kind])
  · rename_i kind
    exact .transfer role kind
  · exact .keep

theorem stepCandidate_moved (role : b.state = .preCandidate ∨ b.state = .candidate) :
    Moved b m (b.stepCandidate m) := by
  unfold stepCandidate
  split
  · rename_i kind
    exact .yield role (by simp [isHail, kind])
  · rename_i kind
    exact .yield role (by simp [isHail, kind])
  · rename_i kind
    exact .yield role (by simp [isHail, kind])
  · split
    · rename_i kind
      exact .count role kind
    · exact .keep

theorem step_moved (b : Ballot) (answers : Answers) (m : Message) :
    Moved (b.checkTerm m) m (b.step answers m) := by
  unfold step
  generalize b.checkTerm m = b
  unfold stepType
  split
  · exact .keep
  · rename_i kind
    split
    · rename_i granted
      exact .vote kind (by simp only [Bool.and_eq_true] at granted; exact granted.1)
    · exact .keep
  · rename_i kind
    exact .hup kind
  · unfold stepRole
    split
    · rename_i role
      exact stepFollower_moved role
    · rename_i role
      exact stepCandidate_moved (.inl role)
    · rename_i role
      exact stepCandidate_moved (.inr role)
    · rename_i role
      unfold stepLeader
      split
      · split
        · exact .keep
        · exact .abdicate role
      · exact .keep

theorem checkTerm_cases (b : Ballot) (m : Message) :
    b.checkTerm m = b ∧ (m.term ≤ b.term ∨ m.type = .msgPreVote ∨ m.type = .msgPreVoteResp) ∨
      b.checkTerm m = b.follow m.term m.fromId ∧ b.term < m.term := by
  unfold checkTerm
  split
  · rename_i later
    exact .inr ⟨rfl, later.2.1⟩
  · rename_i other
    refine .inl ⟨rfl, ?_⟩
    by_contra wrong
    push Not at wrong
    exact other ⟨by omega, wrong.1, fun pre => pre.elim wrong.2.1 wrong.2.2⟩

/-! What an election keeps. -/

theorem elect_cases (b : Ballot) : b.state = .leader ∧ b.elect = b ∨
    b.elect = b.stand.win ∧ b.stand.tally = .voteWon ∨ b.elect = b.stand := by
  unfold elect
  split
  · rename_i leads
    exact .inl ⟨leads, rfl⟩
  · split
    · rename_i won
      exact .inr (.inl ⟨rfl, won⟩)
    · exact .inr (.inr rfl)

theorem hup_cases (b : Ballot) : b.state = .leader ∧ b.hup = b ∨
    b.hup = b.poll.elect ∧ b.poll.tally = .voteWon ∨ b.hup = b.poll := by
  unfold hup
  split
  · rename_i leads
    exact .inl ⟨leads, rfl⟩
  · split
    · rename_i won
      exact .inr (.inl ⟨rfl, won⟩)
    · exact .inr (.inr rfl)

/-- The response counts for nothing, or is recorded and decides. -/
theorem count_cases (b : Ballot) (m : Message) : b.count m = b ∨
    b.term ≤ m.term ∧
      (b.count m = b.record m.fromId (!m.reject) ∨
        b.count m = (b.record m.fromId (!m.reject)).follow b.term None ∨
        (b.record m.fromId (!m.reject)).tally = .voteWon ∧
          (b.state = .preCandidate ∧ b.count m = (b.record m.fromId (!m.reject)).stand ∨
            b.state ≠ .preCandidate ∧ b.count m = (b.record m.fromId (!m.reject)).win)) := by
  unfold count
  split
  · exact .inl rfl
  · rename_i fresh
    refine .inr ⟨by omega, ?_⟩
    simp only
    split
    · rename_i won
      refine .inr (.inr ⟨won, ?_⟩)
      by_cases pre : b.state = .preCandidate
      · exact .inl ⟨pre, if_pos pre⟩
      · exact .inr ⟨pre, if_neg pre⟩
    · exact .inr (.inl rfl)
    · exact .inl rfl

structure SameNode (b b' : Ballot) : Prop where
  id : b'.id = b.id
  voters : b'.voters = b.voters

theorem elect_same (b : Ballot) : SameNode b b.elect := by
  rcases elect_cases b with ⟨_, same⟩ | ⟨same, _⟩ | same <;> rw [same] <;> exact ⟨rfl, rfl⟩

theorem Moved.same (moved : Moved b m b') : SameNode b b' := by
  cases moved with
  | hup =>
    rcases hup_cases b with ⟨_, same⟩ | ⟨same, _⟩ | same
    · rw [same]; exact ⟨rfl, rfl⟩
    · rw [same]; exact ⟨(elect_same b.poll).id, (elect_same b.poll).voters⟩
    · rw [same]; exact ⟨rfl, rfl⟩
  | transfer => exact elect_same b
  | count =>
    rcases count_cases b m with same | ⟨_, same | same | ⟨_, ⟨_, same⟩ | ⟨_, same⟩⟩⟩ <;> rw [same] <;>
      exact ⟨rfl, rfl⟩
  | _ => exact ⟨rfl, rfl⟩

theorem step_same (b : Ballot) (answers : Answers) (m : Message) : SameNode b (b.step answers m) := by
  have moved := (step_moved b answers m).same
  rcases checkTerm_cases b m with ⟨same, _⟩ | ⟨same, _⟩ <;> rw [same] at moved
  · exact moved
  · exact ⟨moved.id, moved.voters⟩

end Ballot

end Kvgo

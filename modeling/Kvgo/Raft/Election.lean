import Kvgo.Raft.Steps

/-! Votes of one node. A node promises its vote of a term in a granting response
and in its own request for votes. The invariant ties the promises that are out or
waiting to go out to `term` and `votedFor`, and the tally of a candidate to the
promises that reached it. -/

namespace Kvgo

def isPromise (msg : Message) : Prop :=
  msg.type = .msgVote ∨ msg.type = .msgVoteResp ∧ msg.reject = false

instance (msg : Message) : Decidable (isPromise msg) := by unfold isPromise; infer_instance

def promisedTo (msg : Message) : Nat := if msg.type = .msgVote then msg.fromId else msg.toId

def Granted (packets : List Packet) (q n term : Nat) : Prop :=
  ∃ msg, ⟨q, msg⟩ ∈ packets ∧ msg.type = .msgVoteResp ∧ msg.reject = false ∧ msg.toId = n ∧
    msg.term = term

def Asked (packets : List Packet) (n term : Nat) : Prop :=
  ∃ msg, ⟨n, msg⟩ ∈ packets ∧ msg.type = .msgVote ∧ msg.fromId = n ∧ msg.term = term

def Led (voters : List Nat) (packets : List Packet) (n term : Nat) : Prop :=
  0 < term ∧ Majority voters (fun q => q = n ∨ Granted packets q n term)

theorem Granted.mono {packets more : List Packet} (sub : packets ⊆ more) {q n term : Nat}
    (granted : Granted packets q n term) : Granted more q n term :=
  let ⟨msg, sent, rest⟩ := granted
  ⟨msg, sub sent, rest⟩

theorem Asked.mono {packets more : List Packet} (sub : packets ⊆ more) {n term : Nat}
    (asked : Asked packets n term) : Asked more n term :=
  let ⟨msg, sent, rest⟩ := asked
  ⟨msg, sub sent, rest⟩

theorem Led.mono {voters : List Nat} {packets more : List Packet} (sub : packets ⊆ more)
    {n term : Nat} (led : Led voters packets n term) : Led voters more n term :=
  ⟨led.1, led.2.mono (fun _ _ => Or.imp_right (Granted.mono sub))⟩

namespace Raft

def held (r : Raft) : List Message := r.messages ++ r.msgsAfterAppend

/-- What node `n` has promised: by a packet, in the messages lent to the host, or in
its buffers. -/
def Promised (packets : List Packet) (lent : List Message) (n : Nat) (r : Raft) (msg : Message) :
    Prop :=
  isPromise msg ∧ (⟨n, msg⟩ ∈ packets ∨ msg ∈ lent ∨ msg ∈ r.held)

structure ElectionOK (voters : List Nat) (n : Nat) (packets : List Packet) (lent : List Message)
    (r : Raft) : Prop where
  id : r.id = n
  nonzero : n ≠ None
  nonempty : r.trk.voters.size ≠ 0
  electorate : r.trk.voters.ids.Perm voters
  sender : ∀ msg ∈ r.held, isPromise msg → msg.fromId = n
  asked : ∀ msg ∈ r.held, msg.type = .msgVoteResp → msg.reject = false →
    Asked packets msg.toId msg.term ∧ msg.toId ≠ None
  after : ∀ msg ∈ r.msgsAfterAppend, afterAppend msg.type = true
  known : ∀ msg, Promised packets lent n r msg → promisedTo msg ≠ None ∧ 0 < msg.term
  bound : ∀ msg, Promised packets lent n r msg →
    msg.term ≤ r.term ∧ (msg.term = r.term → r.votedFor = promisedTo msg)
  once : ∀ msg msg', Promised packets lent n r msg → Promised packets lent n r msg' →
    msg.term = msg'.term → promisedTo msg = promisedTo msg'
  own : r.state = .candidate → 0 < r.term ∧ r.votedFor = n
  tally : r.state = .candidate → ∀ q, r.trk.votes q = some true →
    q = n ∨ Granted packets q n r.term
  led : r.state = .leader → Led voters packets n r.term

section Keep

variable {voters : List Nat} {n : Nat} {packets : List Packet} {lent : List Message} {r r' : Raft}

structure Quiet (r r' : Raft) : Prop where
  id : r'.id = r.id
  voters : r'.trk.voters = r.trk.voters
  term : r'.term = r.term
  votedFor : r'.votedFor = r.votedFor
  held : ∀ msg ∈ r'.held, msg ∈ r.held ∨ ¬isPromise msg
  after : ∀ msg ∈ r'.msgsAfterAppend, msg ∈ r.msgsAfterAppend ∨ afterAppend msg.type = true
  role : r'.state = .follower ∨ r'.state = .preCandidate ∨
    r'.state = r.state ∧ r'.trk.votes = r.trk.votes

theorem Promised.of_quiet (quiet : Quiet r r') {msg : Message}
    (promised : Promised packets lent n r' msg) : Promised packets lent n r msg := by
  obtain ⟨promise, where_⟩ := promised
  refine ⟨promise, where_.imp_right (Or.imp_right (fun inside => ?_))⟩
  exact (quiet.held msg inside).resolve_right (fun other => other promise)

theorem ElectionOK.quiet (good : ElectionOK voters n packets lent r) (quiet : Quiet r r') :
    ElectionOK voters n packets lent r' where
  id := quiet.id.trans good.id
  nonzero := good.nonzero
  nonempty := quiet.voters ▸ good.nonempty
  electorate := quiet.voters ▸ good.electorate
  sender msg inside promise :=
    good.sender msg ((quiet.held msg inside).resolve_right (fun other => other promise)) promise
  asked msg inside kind yes :=
    good.asked msg ((quiet.held msg inside).resolve_right (fun other => other (.inr ⟨kind, yes⟩)))
      kind yes
  after msg inside := (quiet.after msg inside).elim (good.after msg) (fun kind => kind)
  known msg promised := good.known msg (promised.of_quiet quiet)
  bound msg promised := by
    rw [quiet.term, quiet.votedFor]
    exact good.bound msg (promised.of_quiet quiet)
  once msg msg' promised promised' :=
    good.once msg msg' (promised.of_quiet quiet) (promised'.of_quiet quiet)
  own role := by
    rcases quiet.role with other | other | ⟨same, _⟩
    · simp [other] at role
    · simp [other] at role
    · rw [quiet.term, quiet.votedFor]
      exact good.own (same ▸ role)
  tally role q yes := by
    rcases quiet.role with other | other | ⟨same, votes⟩
    · simp [other] at role
    · simp [other] at role
    · rw [quiet.term]
      exact good.tally (same ▸ role) q (votes ▸ yes)
  led role := by
    rcases quiet.role with other | other | ⟨same, _⟩
    · simp [other] at role
    · simp [other] at role
    · rw [quiet.term]
      exact good.led (same ▸ role)

theorem held_of_shows {node : Node} {rd : Ready} (shows : node.Shows rd) :
    ∀ msg ∈ rd.messages, msg ∈ node.r.held := by
  intro msg inside
  simp only [shows.messages, List.mem_append, List.mem_filter] at inside
  simp only [held, List.mem_append]
  tauto

theorem held_enqueue (r : Raft) (new : Message) {msg : Message} (inside : msg ∈ (r.enqueue new).held) :
    msg ∈ r.held ∨ msg = new := by
  unfold enqueue at inside
  split at inside <;> simp only [held, List.mem_append, List.mem_singleton] at inside ⊢ <;> tauto

theorem after_enqueue (r : Raft) (new : Message) {msg : Message}
    (inside : msg ∈ (r.enqueue new).msgsAfterAppend) :
    msg ∈ r.msgsAfterAppend ∨ afterAppend msg.type = true := by
  unfold enqueue at inside
  split at inside
  · rename_i kind
    simp only [List.mem_append, List.mem_singleton] at inside
    exact inside.imp_right (fun (same : msg = new) => same ▸ kind)
  · exact .inl inside

theorem quiet_enqueue (r : Raft) {new : Message} (plain : ¬isPromise new) :
    Quiet r (r.enqueue new) where
  id := by simp
  voters := by simp
  term := by simp
  votedFor := by simp
  held msg inside := (held_enqueue r new inside).imp_right (fun (same : msg = new) => same ▸ plain)
  after _ inside := after_enqueue r new inside
  role := by simp

theorem Quiet.trans {r r' r'' : Raft} (first : Quiet r r') (second : Quiet r' r'') : Quiet r r'' where
  id := second.id.trans first.id
  voters := second.voters.trans first.voters
  term := second.term.trans first.term
  votedFor := second.votedFor.trans first.votedFor
  held msg inside := (second.held msg inside).elim (first.held msg) .inr
  after msg inside := (second.after msg inside).elim (first.after msg) .inr
  role := by
    rcases second.role with follower | pre | ⟨state, votes⟩
    · exact .inl follower
    · exact .inr (.inl pre)
    · rw [state, votes]; exact first.role

theorem quiet_soft (same : Soft r r') : Quiet r r' where
  id := same.id
  voters := same.voters
  term := same.term
  votedFor := same.votedFor
  held msg inside := .inl (by simpa [held, same.messages, same.msgsAfterAppend] using inside)
  after msg inside := .inl (by simpa [same.msgsAfterAppend] using inside)
  role := .inr (.inr ⟨same.state, same.votes⟩)

theorem quiet_answerAll (r : Raft) (reqs : List (Message × Nat)) : Quiet r (r.answerAll reqs) where
  id := rfl
  voters := rfl
  term := rfl
  votedFor := rfl
  held msg inside := by
    simp only [held, answerAll, List.mem_append, List.mem_filterMap] at inside ⊢
    rcases inside with (old | ⟨req, _, answer⟩) | after
    · exact .inl (.inl old)
    · right
      simp only [remoteAnswer] at answer
      split at answer
      · cases answer
      · cases answer
        simp [isPromise, stamp]
    · exact .inl (.inr after)
  after _ inside := .inl inside
  role := .inr (.inr ⟨rfl, rfl⟩)

/-! The acts that promise, count or reset votes. -/

structure Backed (packets : List Packet) (n : Nat) (m : Message) : Prop where
  request : m.type = .msgVote → Asked packets m.fromId m.term ∧ m.fromId ≠ None ∧ 0 < m.term
  response : m.type = .msgVoteResp → m.reject = false →
    m.fromId = n ∨ m.toId = n ∧ ⟨m.fromId, m⟩ ∈ packets

def KeepsTerm (r : Raft) (m : Message) : Prop :=
  r.state = .preCandidate ∨ r.state = .candidate →
    m.type = .msgApp ∨ m.type = .msgHeartbeat ∨ m.type = .msgSnap → r.term ≤ m.term

instance (r : Raft) (m : Message) : Decidable (KeepsTerm r m) := by
  unfold KeepsTerm; infer_instance

theorem Promised.of_held (same : r'.held = r.held) {msg : Message}
    (promised : Promised packets lent n r' msg) : Promised packets lent n r msg :=
  ⟨promised.1, same ▸ promised.2⟩

theorem ElectionOK.becomeFollower (good : ElectionOK voters n packets lent r) {term lead : Nat}
    (forward : r.term ≤ term) : ElectionOK voters n packets lent (r.becomeFollower term lead) := by
  have same : (r.becomeFollower term lead).held = r.held := by simp [held]
  refine ⟨by simpa using good.id, good.nonzero, by simpa using good.nonempty,
    by simpa using good.electorate, ?_, ?_, by simpa using good.after, ?_, ?_, ?_, by simp, by simp,
    by simp⟩
  · rw [same]; exact good.sender
  · rw [same]; exact good.asked
  · exact fun msg promised => good.known msg (promised.of_held same)
  · intro msg promised
    obtain ⟨old, vote⟩ := good.bound msg (promised.of_held same)
    simp only [becomeFollower_term, becomeFollower_votedFor]
    refine ⟨by omega, fun now => ?_⟩
    rw [if_neg (by omega)]
    exact vote (by omega)
  · exact fun msg msg' promised promised' =>
      good.once msg msg' (promised.of_held same) (promised'.of_held same)

theorem ElectionOK.candidacy (good : ElectionOK voters n packets lent r) :
    ElectionOK voters n packets lent (r.becomeCandidate.recordVote r.id true) := by
  have same : (r.becomeCandidate.recordVote r.id true).held = r.held := by
    simp [held, becomeCandidate, recordVote]
  have term : (r.becomeCandidate.recordVote r.id true).term = r.term + 1 := by
    simp [becomeCandidate, recordVote]
  refine ⟨by simpa [becomeCandidate, recordVote] using good.id, good.nonzero,
    by simpa [becomeCandidate, recordVote] using good.nonempty,
    by simpa [becomeCandidate, recordVote] using good.electorate, ?_, ?_,
    by simpa [becomeCandidate, recordVote] using good.after, ?_, ?_, ?_, ?_, ?_, by simp⟩
  · rw [same]; exact good.sender
  · rw [same]; exact good.asked
  · exact fun msg promised => good.known msg (promised.of_held same)
  · intro msg promised
    have old := (good.bound msg (promised.of_held same)).1
    rw [term]
    exact ⟨by omega, by omega⟩
  · exact fun msg msg' promised promised' =>
      good.once msg msg' (promised.of_held same) (promised'.of_held same)
  · exact fun _ => ⟨by omega, by simp [becomeCandidate, recordVote, good.id]⟩
  · intro _ q yes
    left
    by_contra other
    have none : r.id ≠ q := fun same => other (same ▸ good.id)
    simp [becomeCandidate, recordVote, ProgressTracker.recordVote, ProgressTracker.visit,
      ProgressTracker.resetVotes, Function.update_of_ne (Ne.symm none)] at yes

theorem ElectionOK.recordVote (good : ElectionOK voters n packets lent r) {id : Nat} {v : Bool}
    (backed : r.state = .candidate → v = true → id = n ∨ Granted packets id n r.term) :
    ElectionOK voters n packets lent (r.recordVote id v) where
  id := good.id
  nonzero := good.nonzero
  nonempty := good.nonempty
  electorate := good.electorate
  sender := good.sender
  asked := good.asked
  after := good.after
  known := good.known
  bound := good.bound
  once := good.once
  own := good.own
  tally role q yes := by
    by_cases same : q = id
    · subst same
      refine backed role ?_
      simpa [Raft.recordVote, ProgressTracker.recordVote] using yes
    · refine good.tally role q ?_
      simpa [Raft.recordVote, ProgressTracker.recordVote, same] using yes
  led := good.led

/-- A promise for the current term and the candidate voted for may be queued. -/
theorem ElectionOK.promise (good : ElectionOK voters n packets lent r) {new : Message}
    (sender : new.fromId = n) (term : new.term = r.term) (vote : r.votedFor = promisedTo new)
    (known : promisedTo new ≠ None) (positive : 0 < new.term)
    (asked : new.type = .msgVoteResp → Asked packets new.toId new.term ∧ new.toId ≠ None) :
    ElectionOK voters n packets lent (r.enqueue new) := by
  have split : ∀ msg, Promised packets lent n (r.enqueue new) msg →
      Promised packets lent n r msg ∨ msg = new := by
    intro msg promised
    rcases promised.2 with sent | lent' | inside
    · exact .inl ⟨promised.1, .inl sent⟩
    · exact .inl ⟨promised.1, .inr (.inl lent')⟩
    · exact (held_enqueue r new inside).imp_left (fun old => ⟨promised.1, .inr (.inr old)⟩)
  refine ⟨by simpa using good.id, good.nonzero, by simpa using good.nonempty,
    by simpa using good.electorate, ?_, ?_,
    fun msg inside => (after_enqueue r new inside).elim (good.after msg) (fun kind => kind), ?_, ?_, ?_, by simpa using good.own,
    by simpa using good.tally, by simpa using good.led⟩
  · intro msg inside promise
    rcases held_enqueue r new inside with old | rfl
    · exact good.sender msg old promise
    · exact sender
  · intro msg inside kind yes
    rcases held_enqueue r new inside with old | rfl
    · exact good.asked msg old kind yes
    · exact asked kind
  · intro msg promised
    rcases split msg promised with old | rfl
    · exact good.known msg old
    · exact ⟨known, positive⟩
  · intro msg promised
    simp only [enqueue_term, enqueue_votedFor]
    rcases split msg promised with old | rfl
    · exact good.bound msg old
    · exact ⟨by omega, fun _ => vote⟩
  · intro msg msg' promised promised' same
    rcases split msg promised with old | rfl <;> rcases split msg' promised' with old' | rfl
    · exact good.once msg msg' old old' same
    · exact ((good.bound msg old).2 (by omega)).symm.trans vote
    · exact vote.symm.trans ((good.bound msg' old').2 (by omega))
    · rfl

theorem ElectionOK.takeLead (good : ElectionOK voters n packets lent r) {led : Raft}
    (role : r.state = .candidate) (won : r.trk.tallyVotes = .voteWon) (took : TookLead r led) :
    ElectionOK voters n packets lent led := by
  have same : led.held = r.held := by simp [held, took.messages, took.msgsAfterAppend]
  have most := MajorityConfig.voteResult_won good.nonempty won
  refine ⟨took.id.trans good.id, good.nonzero, took.voters ▸ good.nonempty,
    took.voters ▸ good.electorate, same ▸ good.sender, same ▸ good.asked,
    took.msgsAfterAppend ▸ good.after, fun msg promised => good.known msg (promised.of_held same), ?_,
    fun msg msg' promised promised' =>
      good.once msg msg' (promised.of_held same) (promised'.of_held same),
    by simp [took.state], by simp [took.state], ?_⟩
  · intro msg promised
    rw [took.term, took.votedFor]
    exact good.bound msg (promised.of_held same)
  · intro _
    rw [took.term]
    exact ⟨(good.own role).1,
      ((Majority.perm good.electorate).mp most).mono (fun q _ yes => good.tally role q yes)⟩

theorem quiet_appendEntry {data : Bytes} (appended : r.appendEntry data = .ok r') : Quiet r r' := by
  obtain ⟨raftLog, _, rfl⟩ := appendEntry_eq appended
  have moved : Quiet r { r with draws := r.draws + 1, raftLog } :=
    ⟨rfl, rfl, rfl, rfl, fun _ inside => .inl inside, fun _ inside => .inl inside,
      .inr (.inr ⟨rfl, rfl⟩)⟩
  exact moved.trans (quiet_enqueue _ (by simp [isPromise, selfAck]))

theorem canVoteFor_of_grants {m : Message} (granted : r.grants m = .ok true) :
    r.term ≤ m.term ∧ (m.term = r.term → r.votedFor = None ∨ r.votedFor = m.fromId) := by
  have allowed : r.canVoteFor m = true := by
    by_contra refused
    simp [grants, refused] at granted
  simp only [canVoteFor, Bool.and_eq_true, Bool.not_eq_true', decide_eq_false_iff_not,
    Bool.and_eq_false_iff] at allowed
  refine ⟨by omega, fun now => ?_⟩
  rcases allowed.2 with (other | none) | same
  · exact absurd now other
  · exact .inl (by simpa using none)
  · exact .inr (by simpa using same)

theorem ElectionOK.grant (good : ElectionOK voters n packets lent r) {m : Message}
    (kind : m.type = .msgVote) (granted : r.grants m = .ok true) (bound : m.term ≤ r.term)
    (backed : Backed packets n m) :
    ElectionOK voters n packets lent (({ r with votedFor := m.fromId } : Raft).enqueue
      { type := .msgVoteResp, fromId := r.id, toId := m.fromId, term := r.term }) := by
  obtain ⟨fresh, free⟩ := canVoteFor_of_grants granted
  have now : m.term = r.term := by omega
  obtain ⟨asked, known, positive⟩ := backed.request kind
  have voted : ElectionOK voters n packets lent { r with votedFor := m.fromId } := by
    refine { good with bound := fun msg promised => ?_, own := fun role => ?_ }
    · obtain ⟨old, vote⟩ := good.bound msg promised
      refine ⟨old, fun same => ?_⟩
      rcases free now with none | vote'
      · exact absurd ((vote same).symm.trans none) (good.known msg promised).1
      · exact vote'.symm.trans (vote same)
    · obtain ⟨positive, self⟩ := good.own role
      refine ⟨positive, ?_⟩
      rcases free now with none | vote'
      · exact absurd (self.symm.trans none) good.nonzero
      · exact vote'.symm.trans self
  refine voted.promise good.id rfl ?_ ?_ (now ▸ positive) (fun _ => ⟨now ▸ asked, known⟩)
  · simp [promisedTo]
  · simpa [promisedTo] using known

theorem ElectionOK.emit (good : ElectionOK voters n packets lent r) {m msg : Message}
    (sent : Emits m r msg) : ElectionOK voters n packets lent (r.enqueue msg) := by
  cases sent with
  | idle _ idle sender =>
    refine good.quiet (quiet_enqueue r ?_)
    simp only [isIdle, Bool.or_eq_true, Bool.and_eq_true, beq_iff_eq] at idle
    rintro (vote | ⟨vote, yes⟩) <;> simp [vote] at idle
    simp [idle] at yes
  | forward role kind =>
    refine good.quiet (quiet_enqueue r ?_)
    rcases kind with kind | kind | kind <;> simp [isPromise, kind]
  | vote pid last role peer id =>
    obtain ⟨positive, self⟩ := good.own role
    refine good.promise good.id rfl ?_ ?_ positive (by simp [voteRequest])
    · simp [promisedTo, voteRequest, self, good.id]
    · simpa [promisedTo, voteRequest, good.id] using good.nonzero
  | snapshot target role behind =>
    exact good.quiet (quiet_enqueue r (by simp [isPromise, snapMsg]))
  | heartbeat target pr ctx role other tracked origin =>
    exact good.quiet (quiet_enqueue r (by simp [isPromise, heartbeatMsg]))

theorem quiet_of_eq (id : r'.id = r.id) (voters : r'.trk.voters = r.trk.voters)
    (votes : r'.trk.votes = r.trk.votes) (term : r'.term = r.term)
    (votedFor : r'.votedFor = r.votedFor) (messages : r'.messages = r.messages)
    (after : r'.msgsAfterAppend = r.msgsAfterAppend) (state : r'.state = r.state) : Quiet r r' where
  id := id
  voters := voters
  term := term
  votedFor := votedFor
  held _ inside := .inl (by simpa [held, messages, after] using inside)
  after _ inside := .inl (after ▸ inside)
  role := .inr (.inr ⟨state, votes⟩)

/-- Every act keeps the invariant, as long as no campaigning node goes back a term. -/
theorem ElectionOK.act (good : ElectionOK voters n packets lent r) {r0 : Raft} {m : Message}
    (backed : Backed packets n m) (keeps : KeepsTerm r0 m) (act : Act r0 m r r') :
    ElectionOK voters n packets lent r' := by
  cases act with
  | soft same => exact good.quiet (quiet_soft same)
  | emit msg sent => exact good.emit sent
  | resend target p prevTerm entries role other tracked why prev slice =>
    exact good.quiet (quiet_enqueue r (by simp [isPromise, appendMsg]))
  | follow later kind => exact good.becomeFollower later.le
  | yield start role bound kind =>
    subst start
    exact good.becomeFollower (keeps role kind)
  | abdicate => exact good.becomeFollower le_rfl
  | preCampaign role =>
    exact good.quiet ⟨rfl, rfl, rfl, rfl, fun _ inside => .inl inside, fun _ inside => .inl inside,
      .inr (.inl rfl)⟩
  | candidacy role => exact good.candidacy
  | tally role kind fresh bound =>
    refine good.recordVote (fun candidate yes => ?_)
    have resp : m.type = .msgVoteResp := by simpa [voteRespType, candidate] using kind
    have agreed : m.reject = false := by simpa using yes
    rcases backed.response resp agreed with self | ⟨target, sent⟩
    · exact .inl self
    · exact .inr ⟨m, sent, resp, agreed, target, le_antisymm (bound resp) fresh⟩
  | lead role won taken appended =>
    exact (good.takeLead role won (takeLead_spec taken)).quiet (quiet_appendEntry appended)
  | propose data role appended => exact good.quiet (quiet_appendEntry appended)
  | grant kind granted bound => exact good.grant kind granted bound backed
  | accept appended committed heard role kind bound matched append commit =>
    have moved : Quiet r { r with draws := r.draws + 1, raftLog := committed } :=
      quiet_of_eq rfl rfl rfl rfl rfl rfl rfl rfl
    exact good.quiet (moved.trans (quiet_enqueue _ (by simp [isPromise])))
  | refuse heard role kind bound unmatched =>
    exact good.quiet (quiet_enqueue _ (by simp [isPromise, refusal]))
  | beat raftLog heard role kind bound committed =>
    have moved : Quiet r { r with raftLog } := quiet_of_eq rfl rfl rfl rfl rfl rfl rfl rfl
    exact good.quiet (moved.trans (quiet_enqueue _ (by simp [isPromise])))
  | restore snap storage heard role kind carried applied =>
    exact good.quiet (quiet_of_eq rfl rfl rfl rfl rfl rfl rfl rfl)
  | ack p role kind bound tracked start => exact good.quiet (quiet_of_eq rfl rfl rfl rfl rfl rfl rfl rfl)
  | commit raftLog role current committed =>
    exact good.quiet (quiet_of_eq rfl rfl rfl rfl rfl rfl rfl rfl)
  | drain role =>
    have emptied : Quiet r { r with pendingReadIndexRequests := [] } :=
      quiet_of_eq rfl rfl rfl rfl rfl rfl rfl rfl
    exact good.quiet (emptied.trans (quiet_answerAll _ _))
  | readSingle role kind single => exact good.quiet (quiet_answerAll _ _)
  | queueRead start role kind current => exact good.quiet (quiet_of_eq rfl rfl rfl rfl rfl rfl rfl rfl)
  | holdRead start role kind current => exact good.quiet (quiet_of_eq rfl rfl rfl rfl rfl rfl rfl rfl)
  | ackRead role kind bound context => exact good.quiet (quiet_of_eq rfl rfl rfl rfl rfl rfl rfl rfl)
  | release readOnly rss role kind bound context won advanced =>
    have released : Quiet r { r with readOnly } := quiet_of_eq rfl rfl rfl rfl rfl rfl rfl rfl
    exact good.quiet (released.trans (quiet_answerAll _ _))
  | noteRead role kind => exact good.quiet (quiet_of_eq rfl rfl rfl rfl rfl rfl rfl rfl)

end Keep

end Raft

end Kvgo

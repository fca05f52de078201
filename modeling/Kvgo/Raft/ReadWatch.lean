import Kvgo.Raft.Host
import Kvgo.Raft.ReadQueue

/-! What a node knows about one read while it waits for a quorum.

A leader answers a read with the commit index it had when it queued the read, once a
quorum has answered heartbeats that carry the context of the read or of one queued behind it.
The index is current because an answer that was sent after a moment carries a term that the
voter has had since. The state of a node is measured here against such a moment. -/

namespace Kvgo

theorem update_cases {α β : Type} [DecidableEq α] {f : α → β} {a c : α} {new found : β}
    (there : Function.update f a new c = found) : c = a ∧ new = found ∨ f c = found := by
  by_cases same : c = a
  · rw [same, Function.update_self] at there
    exact .inl ⟨same, there⟩
  · rw [Function.update_of_ne same] at there
    exact .inr there

theorem Raft.appendEntries_committed {l l' : RaftLog} {ents : List Entry} {room : Nat}
    (done : l.appendEntries ents room = .ok l') : l'.committed = l.committed := by
  rcases RaftLog.appendEntries_eq_ok done with ⟨_, rfl⟩ | ⟨_, _, _, _, _, _, rfl⟩ <;> rfl

namespace ReadOnly

variable {ro ro' : ReadOnly} {pending : Bytes → Option ReadIndexStatus} {ctx : Bytes} {queue rest : List Bytes}
  {rss : List ReadIndexStatus} {m : Message}

/-- The loop of `advance` meets the contexts of the queue up to the one it looks for. -/
theorem scan_split (ok : scan pending ctx queue = .ok (rss, some rest)) :
    ∃ before, queue = before ++ ctx :: rest ∧ ∀ rs ∈ rss, ∃ c ∈ before ++ [ctx], pending c = some rs := by
  induction queue generalizing rss with
  | nil => cases ok
  | cons c queue ih =>
    rw [scan] at ok
    cases here : pending c with
    | none =>
      rw [here] at ok
      cases ok
    | some rs =>
      rw [here] at ok
      dsimp only at ok
      split at ok
      · rename_i same
        cases ok
        subst same
        exact ⟨[], rfl, by simp [here]⟩
      · obtain ⟨⟨later, found⟩, scanned, ok⟩ := Outcome.bind_eq_ok.mp ok
        cases ok
        obtain ⟨before, rfl, met⟩ := ih scanned
        refine ⟨c :: before, rfl, fun rs' inside => ?_⟩
        rcases List.mem_cons.mp inside with rfl | inside
        · exact ⟨c, by simp, here⟩
        · obtain ⟨c', there, found⟩ := met rs' inside
          exact ⟨c', List.mem_cons_of_mem _ there, found⟩

/-- What `advance` answers, and what it leaves. -/
theorem advance_split (ok : ro.advance m = .ok (ro', rss)) : ro' = ro ∧ rss = [] ∨
    ∃ before, ro.readIndexQueue = before ++ m.context :: ro'.readIndexQueue ∧
      (∀ rs ∈ rss, ∃ c ∈ before ++ [m.context], ro.pendingReadIndex c = some rs) ∧
      ∀ c rs, ro'.pendingReadIndex c = some rs → ro.pendingReadIndex c = some rs := by
  obtain ⟨⟨met, found⟩, scanned, ok⟩ := Outcome.bind_eq_ok.mp ok
  cases found with
  | none =>
    cases ok
    exact .inl ⟨rfl, rfl⟩
  | some rest =>
    cases ok
    obtain ⟨before, split, answered⟩ := scan_split scanned
    refine .inr ⟨before, split, answered, fun c rs left => ?_⟩
    have kept : delete rss ro.pendingReadIndex c = some rs := left
    rw [delete_apply] at kept
    split at kept
    · cases kept
    · exact kept

/-- The acks that `recvAck` returns are those it has recorded. -/
theorem recvAck_recorded {id q : Nat} (acked : (ro.recvAck id ctx).2 q = some true) :
    ∃ rs, (ro.recvAck id ctx).1.pendingReadIndex ctx = some rs ∧ rs.acks = (ro.recvAck id ctx).2 := by
  unfold recvAck at acked ⊢
  cases here : ro.pendingReadIndex ctx with
  | none => simp [here] at acked
  | some rs => simp

end ReadOnly

structure Watch where
  voters : List Nat
  ctx : Bytes
  /-- Whether the read may have been made. -/
  asked : Prop
  /-- The contexts that were in use at the moment. -/
  used : Bytes → Prop
  /-- The terms of the nodes at the moment. -/
  floor : Nat → Nat
  /-- A leader of the moment, with its term and its commit index. -/
  leader : Nat
  term : Nat
  index : Nat
  member : leader ∈ voters
  elected : Majority voters (fun q => term ≤ floor q)

namespace Watch

variable {w : Watch}

def Good (w : Watch) (i : Nat) : Prop := w.asked ∧ w.index ≤ i

structure Honest (w : Watch) (msg : Message) : Prop where
  ask : msg.type = .msgReadIndex → msg.context = w.ctx → w.asked
  beat : msg.type = .msgHeartbeatResp → ¬w.used msg.context → w.floor msg.fromId ≤ msg.term
  answer : msg.type = .msgReadIndexResp → msg.context = w.ctx → w.Good msg.index

theorem honest_of_type {msg : Message} (ask : msg.type ≠ .msgReadIndex) (beat : msg.type ≠ .msgHeartbeatResp)
    (answer : msg.type ≠ .msgReadIndexResp) : w.Honest msg :=
  ⟨fun kind => absurd kind ask, fun kind => absurd kind beat, fun kind => absurd kind answer⟩

/-! ### The queue -/

structure Queue (w : Watch) (term : Nat) (ro : ReadOnly) : Prop where
  holds : ∃ waiting, ro.Holds waiting
  acks : ∀ y rs, ro.pendingReadIndex y = some rs → ¬w.used y → ∀ q, rs.acks q = some true → w.floor q ≤ term
  waits : ∀ rs, ro.pendingReadIndex w.ctx = some rs → w.asked ∧ (w.term ≤ term → w.index ≤ rs.index)
  behind : ∀ front back, ro.readIndexQueue = front ++ w.ctx :: back → ∀ y ∈ w.ctx :: back, ¬w.used y

section Queue

variable {term : Nat} {ro ro' : ReadOnly} {m : Message}

theorem queue_new (w : Watch) (term : Nat) : w.Queue term ReadOnly.newReadOnly := by
  refine ⟨⟨[], ReadOnly.holds_new⟩, fun y rs there => ?_, fun rs there => ?_, fun front back split => ?_⟩
  · cases there
  · cases there
  · have := congrArg List.length split
    simp [ReadOnly.newReadOnly] at this

theorem Queue.named (queue : w.Queue term ro) {y : Bytes} {rs : ReadIndexStatus}
    (there : ro.pendingReadIndex y = some rs) : rs.req.context = y := by
  obtain ⟨waiting, holds⟩ := queue.holds
  by_cases inside : y ∈ waiting.map Inquiry.context
  · obtain ⟨a, listed, rfl⟩ := List.mem_map.mp inside
    obtain ⟨index, found⟩ := holds.found a listed
    rw [there] at found
    cases found
    rfl
  · rw [holds.only y inside] at there
    cases there

theorem Queue.listed (queue : w.Queue term ro) {y : Bytes} (inside : y ∈ ro.readIndexQueue) :
    ∃ rs, ro.pendingReadIndex y = some rs := by
  obtain ⟨waiting, holds⟩ := queue.holds
  rw [holds.queue] at inside
  obtain ⟨a, listed, rfl⟩ := List.mem_map.mp inside
  obtain ⟨index, found⟩ := holds.found a listed
  exact ⟨_, found⟩

theorem Queue.addRequest (queue : w.Queue term ro) {i : Nat} (fresh : ¬w.used m.context)
    (good : m.context = w.ctx → w.asked ∧ (w.term ≤ term → w.index ≤ i)) : w.Queue term (ro.addRequest i m) := by
  cases free : ro.pendingReadIndex m.context with
  | some rs =>
    have same : ro.addRequest i m = ro := by simp only [ReadOnly.addRequest, free]
    rw [same]
    exact queue
  | none =>
    obtain ⟨waiting, holds⟩ := queue.holds
    have added : ro.addRequest i m =
        { pendingReadIndex := Function.update ro.pendingReadIndex m.context (some ⟨m, i, fun _ => none⟩)
          readIndexQueue := ro.readIndexQueue ++ [m.context] } := by
      simp only [ReadOnly.addRequest, free]
    refine ⟨⟨_, holds.addRequest free⟩, ?_, ?_, ?_⟩ <;> rw [added]
    · intro y rs there new q acked
      rcases update_cases there with ⟨_, same⟩ | there
      · cases same
        cases acked
      · exact queue.acks y rs there new q acked
    · intro rs there
      rcases update_cases there with ⟨same, status⟩ | there
      · cases status
        exact good same.symm
      · exact queue.waits rs there
    · intro front back split y inside
      -- the new context is the last one of the queue
      rcases List.eq_nil_or_concat' back with rfl | ⟨more, last, rfl⟩
      · obtain ⟨_, same⟩ := List.append_inj' split rfl
        rw [List.mem_singleton.mp inside, ← List.singleton_inj.mp same]
        exact fresh
      · rw [← List.cons_append] at inside split
        rw [← List.append_assoc] at split
        obtain ⟨old, same⟩ := List.append_inj' split rfl
        rcases List.mem_append.mp inside with earlier | new
        · exact queue.behind front more old y earlier
        · rw [List.mem_singleton.mp new, ← List.singleton_inj.mp same]
          exact fresh

theorem Queue.recvAck (queue : w.Queue term ro) {id : Nat} {ctx : Bytes} (low : ¬w.used ctx → w.floor id ≤ term) :
    w.Queue term (ro.recvAck id ctx).1 := by
  obtain ⟨waiting, holds⟩ := queue.holds
  have holds' := holds.recvAck id ctx
  cases here : ro.pendingReadIndex ctx with
  | none =>
    have same : (ro.recvAck id ctx).1 = ro := by simp only [ReadOnly.recvAck, here]
    rw [same]
    exact queue
  | some rs0 =>
    have marked : (ro.recvAck id ctx).1 =
        { pendingReadIndex := Function.update ro.pendingReadIndex ctx
            (some ⟨rs0.req, rs0.index, Function.update rs0.acks id (some true)⟩)
          readIndexQueue := ro.readIndexQueue } := by
      simp only [ReadOnly.recvAck, here]
    refine ⟨⟨_, holds'⟩, ?_, ?_, ?_⟩ <;> rw [marked]
    · intro y rs there new q acked
      rcases update_cases there with ⟨same, status⟩ | there
      · subst same
        cases status
        by_cases self : q = id
        · rw [self]
          exact low new
        · exact queue.acks y rs0 here new q ((Function.update_of_ne self _ _).symm.trans acked)
      · exact queue.acks y rs there new q acked
    · intro rs there
      rcases update_cases there with ⟨same, status⟩ | there
      · cases status
        exact queue.waits rs0 (same ▸ here)
      · exact queue.waits rs there
    · exact queue.behind

/-- A quorum that answers for a context releases the watched read only with a good index: one
of the quorum voted for the leader of the moment. -/
theorem Queue.release (queue : w.Queue term ro) {config : MajorityConfig} {rss : List ReadIndexStatus}
    (electorate : config.ids.Perm w.voters) (nonempty : config.size ≠ 0)
    (low : ¬w.used m.context → w.floor m.fromId ≤ term)
    (won : config.voteResult (ro.recvAck m.fromId m.context).2 = .voteWon)
    (advanced : (ro.recvAck m.fromId m.context).1.advance m = .ok (ro', rss)) :
    w.Queue term ro' ∧ ∀ rs ∈ rss, rs.req.context = w.ctx → w.Good rs.index := by
  have acked := queue.recvAck low
  generalize marking : (ro.recvAck m.fromId m.context).1 = marked at acked advanced
  obtain ⟨waiting, holds⟩ := acked.holds
  obtain ⟨_, rest, _, _, left, _⟩ := holds.advance advanced
  rcases ReadOnly.advance_split advanced with ⟨rfl, rfl⟩ | ⟨before, split, met, sub⟩
  · exact ⟨acked, by simp⟩
  refine ⟨⟨⟨rest, left⟩, fun y rs there => acked.acks y rs (sub y rs there),
    fun rs there => acked.waits rs (sub _ rs there), fun front back tail => ?_⟩, fun rs inside mine => ?_⟩
  · refine acked.behind (before ++ m.context :: front) back ?_
    rw [split, tail]
    simp
  · obtain ⟨c, position, found⟩ := met rs inside
    obtain rfl : c = w.ctx := (acked.named found).symm.trans mine
    have new : ¬w.used m.context := by
      rcases List.mem_append.mp position with early | last
      · obtain ⟨front, back, rfl⟩ := List.append_of_mem early
        refine acked.behind front (back ++ m.context :: ro'.readIndexQueue) ?_ m.context (by simp)
        rw [split]
        simp
      · rw [← List.mem_singleton.mp last]
        refine acked.behind before ro'.readIndexQueue ?_ w.ctx (by simp)
        rw [split, List.mem_singleton.mp last]
    have quorum : Majority w.voters (fun q => w.floor q ≤ term) := by
      refine ((Majority.perm electorate).mp (MajorityConfig.voteResult_won nonempty won)).mono (fun q _ yes => ?_)
      obtain ⟨status, recorded, acks⟩ := ReadOnly.recvAck_recorded yes
      rw [marking] at recorded
      exact acked.acks m.context status recorded new q (by rw [acks]; exact yes)
    obtain ⟨q, _, current, since⟩ := quorum.inter w.elected
    obtain ⟨asked, index⟩ := acked.waits rs found
    exact ⟨asked, index (since.trans current)⟩

end Queue

/-! ### The node -/

structure Core (w : Watch) (n : Nat) (r : Raft) : Prop where
  id : r.id = n
  member : n ∈ w.voters
  electorate : r.trk.voters.ids.Perm w.voters
  ids : ∀ v ∈ w.voters, v ∈ r.trk.ids
  term : w.floor n ≤ r.term
  log : n = w.leader → w.index ≤ r.raftLog.committed
  queue : w.Queue r.term r.readOnly
  parked : ∀ m ∈ r.pendingReadIndexRequests, m.context ≠ w.ctx
  states : ∀ st ∈ r.readStates, st.requestCtx = w.ctx → w.Good st.index
  held : ∀ msg ∈ r.held, w.Honest msg
  after : ∀ msg ∈ r.msgsAfterAppend, afterAppend msg.type = true

/-- Two states between which no read is asked or answered, and no message is queued. -/
structure Calm (r r' : Raft) : Prop where
  id : r'.id = r.id
  voters : r'.trk.voters = r.trk.voters
  ids : r'.trk.ids = r.trk.ids
  term : r.term ≤ r'.term
  committed : r.raftLog.committed ≤ r'.raftLog.committed
  reads : r'.readOnly = ReadOnly.newReadOnly ∧ r'.pendingReadIndexRequests = [] ∨
    r'.term = r.term ∧ r'.readOnly = r.readOnly ∧ r'.pendingReadIndexRequests = r.pendingReadIndexRequests
  states : ∀ st ∈ r'.readStates, st ∈ r.readStates
  held : ∀ msg ∈ r'.held, msg ∈ r.held
  after : ∀ msg ∈ r'.msgsAfterAppend, msg ∈ r.msgsAfterAppend

section Core

variable {n : Nat} {r r' r0 : Raft} {m msg : Message}

theorem Core.calm (core : w.Core n r) (calm : Calm r r') : w.Core n r' where
  id := calm.id.trans core.id
  member := core.member
  electorate := calm.voters ▸ core.electorate
  ids := calm.ids ▸ core.ids
  term := core.term.trans calm.term
  log lead := (core.log lead).trans calm.committed
  queue := by
    rcases calm.reads with ⟨reset, _⟩ | ⟨term, same, _⟩
    · rw [reset]
      exact queue_new w r'.term
    · rw [same, term]
      exact core.queue
  parked := by
    rcases calm.reads with ⟨_, reset⟩ | ⟨_, _, same⟩
    · simp [reset]
    · rw [same]
      exact core.parked
  states st inside := core.states st (calm.states st inside)
  held msg inside := core.held msg (calm.held msg inside)
  after msg inside := core.after msg (calm.after msg inside)

theorem Core.enqueue (core : w.Core n r) (honest : w.Honest msg) : w.Core n (r.enqueue msg) where
  id := by simpa using core.id
  member := core.member
  electorate := by simpa using core.electorate
  ids := by simpa using core.ids
  term := by simpa using core.term
  log := by simpa using core.log
  queue := by simpa using core.queue
  parked := by simpa using core.parked
  states := by simpa using core.states
  held msg' inside := (Raft.held_enqueue r msg inside).elim (core.held msg') (fun same => same ▸ honest)
  after msg' inside := (Raft.after_enqueue r msg inside).elim (core.after msg') (fun kind => kind)

theorem Core.answerAll (core : w.Core n r) {reqs : List (Message × Nat)}
    (good : ∀ req ∈ reqs, req.1.context = w.ctx → w.Good req.2) : w.Core n (r.answerAll reqs) := by
  refine { core with states := fun st inside mine => ?_, held := fun msg inside => ?_ }
  · rcases List.mem_append.mp inside with old | new
    · exact core.states st old mine
    · obtain ⟨req, listed, answer⟩ := List.mem_filterMap.mp new
      unfold Raft.localAnswer at answer
      split at answer
      · cases answer
        exact good req listed mine
      · cases answer
  · simp only [Raft.held, Raft.answerAll, List.mem_append, List.mem_filterMap] at inside
    rcases inside with (old | ⟨req, listed, answer⟩) | old
    · exact core.held msg (List.mem_append_left _ old)
    · unfold Raft.remoteAnswer at answer
      split at answer
      · cases answer
      · cases answer
        refine ⟨by simp, by simp, fun _ mine => ?_⟩
        rw [Raft.stamp_context] at mine
        rw [Raft.stamp_index]
        exact good req listed mine
    · exact core.held msg (List.mem_append_right _ old)

theorem Core.nonempty (core : w.Core n r) : r.trk.voters.size ≠ 0 := by
  have some := List.length_pos_of_mem core.member
  have same := core.electorate.length_eq
  simp only [MajorityConfig.size]
  omega

theorem Core.alone (core : w.Core n r) (single : r.trk.isSingleton = true) : n = w.leader := by
  obtain ⟨x, only⟩ := List.length_eq_one_iff.mp (beq_iff_eq.mp single)
  have self := core.ids n core.member
  have lead := core.ids w.leader w.member
  rw [only, List.mem_singleton] at self lead
  rw [self, lead]

/-! Calm acts. -/

theorem calm_becomeFollower {term lead : Nat} (forward : r.term ≤ term) : Calm r (r.becomeFollower term lead) where
  id := by simp
  voters := by simp
  ids := by simp
  term := by simpa using forward
  committed := by simp
  reads := .inl ⟨rfl, rfl⟩
  states := by simp
  held := by simp [Raft.held]
  after := by simp

theorem calm_candidacy (r : Raft) : Calm r (r.becomeCandidate.recordVote r.id true) where
  id := by simp [Raft.becomeCandidate, Raft.recordVote]
  voters := by simp [Raft.becomeCandidate, Raft.recordVote]
  ids := by simp [Raft.becomeCandidate, Raft.recordVote]
  term := by simp [Raft.becomeCandidate, Raft.recordVote]
  committed := by simp [Raft.becomeCandidate, Raft.recordVote]
  reads := .inl ⟨rfl, rfl⟩
  states := by simp [Raft.becomeCandidate, Raft.recordVote]
  held := by simp [Raft.held, Raft.becomeCandidate, Raft.recordVote]
  after := by simp [Raft.becomeCandidate, Raft.recordVote]

theorem calm_tookLead {led : Raft} (took : Raft.TookLead r led) : Calm r led where
  id := took.id
  voters := took.voters
  ids := took.ids
  term := took.term.ge
  committed := by rw [took.raftLog]
  reads := .inl ⟨took.readOnly, took.pendingReadIndexRequests⟩
  states _ inside := took.readStates ▸ inside
  held msg inside := by simpa [Raft.held, took.messages, took.msgsAfterAppend] using inside
  after _ inside := took.msgsAfterAppend ▸ inside

/-- Assignments to other fields. -/
theorem calm_of_eq (id : r'.id = r.id) (voters : r'.trk.voters = r.trk.voters) (ids : r'.trk.ids = r.trk.ids)
    (term : r'.term = r.term) (committed : r.raftLog.committed ≤ r'.raftLog.committed)
    (readOnly : r'.readOnly = r.readOnly)
    (parked : r'.pendingReadIndexRequests = r.pendingReadIndexRequests)
    (readStates : r'.readStates = r.readStates) (messages : r'.messages = r.messages)
    (after : r'.msgsAfterAppend = r.msgsAfterAppend) : Calm r r' where
  id := id
  voters := voters
  ids := ids
  term := term.ge
  committed := committed
  reads := .inr ⟨term, readOnly, parked⟩
  states _ inside := readStates ▸ inside
  held _ inside := by simpa [Raft.held, messages, after] using inside
  after _ inside := after ▸ inside

theorem calm_soft (same : Raft.Soft r r') : Calm r r' :=
  calm_of_eq same.id same.voters same.ids same.term (by rw [same.raftLog]) same.readOnly
    same.pendingReadIndexRequests same.readStates same.messages same.msgsAfterAppend

theorem calm_log {raftLog : RaftLog} {draws : Nat} (committed : r.raftLog.committed ≤ raftLog.committed) :
    Calm r { r with raftLog, draws } :=
  calm_of_eq rfl rfl rfl rfl committed rfl rfl rfl rfl rfl

theorem commitTo_le {l l' : RaftLog} {i : Nat} (done : l.commitTo i = .ok l') : l.committed ≤ l'.committed := by
  rcases RaftLog.commitTo_eq_ok done with ⟨_, rfl⟩ | ⟨before, _, rfl⟩
  · exact le_rfl
  · exact before.le

theorem commitFromLeader_le {l l' : RaftLog} {commit : Nat} (done : Raft.commitFromLeader l commit = .ok l') :
    l.committed ≤ l'.committed := by
  unfold Raft.commitFromLeader at done
  split at done
  · exact commitTo_le done
  · cases done
    exact le_rfl

theorem Core.appendEntry (core : w.Core n r) {data : Bytes} (appended : r.appendEntry data = .ok r') :
    w.Core n r' := by
  obtain ⟨raftLog, done, rfl⟩ := Raft.appendEntry_eq appended
  have moved : w.Core n { r with draws := r.draws + 1, raftLog } :=
    core.calm (calm_log (Raft.appendEntries_committed done).ge)
  exact moved.enqueue (honest_of_type (by simp [Raft.selfAck]) (by simp [Raft.selfAck]) (by simp [Raft.selfAck]))

/-- What a call of `Step` has to meet for the watch to go on. -/
structure Call (w : Watch) (r : Raft) (m : Message) : Prop where
  honest : w.Honest m
  current : Raft.Current r m
  noSnap : m.type ≠ .msgSnap
  fresh : m.type = .msgReadIndex → r.state = .leader → ¬w.used m.context
  prompt : m.type = .msgReadIndex → r.state = .leader → m.context = w.ctx →
    r.committedEntryInCurrentTerm ≠ .ok false
  level : m.type = .msgReadIndex → r.state = .leader → r.committedEntryInCurrentTerm = .ok true →
    w.term ≤ r.term → w.index ≤ r.raftLog.committed

theorem Core.emit (core : w.Core n r) (call : w.Call r0 m) (sent : Raft.Emits m r msg) :
    w.Core n (r.enqueue msg) := by
  refine core.enqueue ?_
  cases sent with
  | idle _ idle sender =>
    simp only [Raft.isIdle, Bool.or_eq_true, Bool.and_eq_true, beq_iff_eq] at idle
    refine honest_of_type ?_ ?_ ?_ <;> intro kind <;> simp [kind] at idle
  | forward role kind =>
    refine ⟨fun ask mine => ?_, fun beat => ?_, fun answer => ?_⟩
    · exact call.honest.ask (by simpa using ask) (by simpa using mine)
    · rcases kind with kind | kind | kind <;> simp [kind] at beat
    · rcases kind with kind | kind | kind <;> simp [kind] at answer
  | vote pid last role peer id =>
    exact honest_of_type (by simp [Raft.voteRequest]) (by simp [Raft.voteRequest]) (by simp [Raft.voteRequest])
  | snapshot target role behind =>
    exact honest_of_type (by simp [Raft.snapMsg]) (by simp [Raft.snapMsg]) (by simp [Raft.snapMsg])
  | heartbeat target pr ctx role other tracked origin =>
    exact honest_of_type (by simp [Raft.heartbeatMsg]) (by simp [Raft.heartbeatMsg]) (by simp [Raft.heartbeatMsg])

theorem Core.beat (core : w.Core n r) (target : Nat) (ctx : Bytes) :
    w.Honest (r.stamp { type := .msgHeartbeatResp, toId := target, context := ctx }) := by
  refine ⟨by simp, fun _ _ => ?_, by simp⟩
  rw [Raft.stamp_fromId, if_pos rfl, core.id]
  exact core.term

theorem Core.queueRead (core : w.Core n r) (call : w.Call r m) (role : r.state = .leader)
    (kind : m.type = .msgReadIndex) (current : r.committedEntryInCurrentTerm = .ok true) :
    w.Core n { r with
      readOnly := ((r.readOnly.addRequest r.raftLog.committed m).recvAck r.id m.context).1 } := by
  have added := core.queue.addRequest (i := r.raftLog.committed) (call.fresh kind role)
    (fun mine => ⟨call.honest.ask kind mine, call.level kind role current⟩)
  exact { core with queue := added.recvAck (fun _ => by rw [core.id]; exact core.term) }

/-- Every act keeps what is known about the read. -/
theorem Core.act (core : w.Core n r) (call : w.Call r0 m) (act : Raft.Act r0 m r r') : w.Core n r' := by
  cases act with
  | soft same => exact core.calm (calm_soft same)
  | emit msg sent => exact core.emit call sent
  | resend target p prevTerm entries role other tracked why prev slice =>
    exact core.enqueue (honest_of_type (by simp [Raft.appendMsg]) (by simp [Raft.appendMsg]) (by simp [Raft.appendMsg]))
  | follow later kind => exact core.calm (calm_becomeFollower later.le)
  | yield start role bound kind =>
    subst start
    have campaigning : r.state ≠ .leader := by rcases role with role | role <;> simp [role]
    refine core.calm (calm_becomeFollower ?_)
    rcases kind with kind | kind | kind
    · exact call.current (.inl ⟨.inl kind, campaigning⟩)
    · exact call.current (.inl ⟨.inr kind, campaigning⟩)
    · exact absurd kind call.noSnap
  | abdicate => exact core.calm (calm_becomeFollower le_rfl)
  | preCampaign role =>
    exact core.calm (calm_of_eq rfl rfl rfl rfl le_rfl rfl rfl rfl rfl rfl)
  | candidacy role => exact core.calm (calm_candidacy r)
  | tally role kind fresh bound =>
    exact core.calm (calm_of_eq rfl rfl rfl rfl le_rfl rfl rfl rfl rfl rfl)
  | lead role won taken appended =>
    exact (core.calm (calm_tookLead (Raft.takeLead_spec taken))).appendEntry appended
  | propose data role appended => exact core.appendEntry appended
  | grant kind granted bound =>
    have voted : w.Core n { r with votedFor := m.fromId } := { core with }
    exact voted.enqueue (honest_of_type (by simp) (by simp) (by simp))
  | accept appended committed heard role kind bound matched append commit =>
    have moved : w.Core n { r with draws := r.draws + 1, raftLog := committed } :=
      core.calm (calm_log ((Raft.appendEntries_committed append).ge.trans (commitFromLeader_le commit)))
    exact moved.enqueue (honest_of_type (by simp) (by simp) (by simp))
  | refuse heard role kind bound unmatched =>
    exact core.enqueue (honest_of_type (by simp [Raft.refusal]) (by simp [Raft.refusal]) (by simp [Raft.refusal]))
  | beat raftLog heard role kind bound committed =>
    have moved : w.Core n { r with raftLog } := core.calm (calm_log (commitTo_le committed))
    exact moved.enqueue (core.beat m.fromId m.context)
  | restore snap storage heard role kind carried applied => exact absurd kind call.noSnap
  | ack p role kind bound tracked start =>
    exact core.calm (calm_of_eq rfl rfl rfl rfl le_rfl rfl rfl rfl rfl rfl)
  | commit raftLog role current committed => exact core.calm (calm_log (commitTo_le committed))
  | drain role =>
    have emptied : w.Core n { r with pendingReadIndexRequests := [] } := { core with parked := by simp }
    refine emptied.answerAll (fun req inside mine => ?_)
    obtain ⟨parked, listed, rfl⟩ := List.mem_map.mp inside
    exact absurd mine (core.parked parked listed)
  | readSingle role kind single =>
    refine core.answerAll (fun req inside mine => ?_)
    obtain rfl := List.mem_singleton.mp inside
    exact ⟨call.honest.ask kind mine, core.log (core.alone single)⟩
  | queueRead start role kind current =>
    subst start
    exact core.queueRead call role kind current
  | holdRead start role kind current =>
    subst start
    refine { core with parked := fun m' inside mine => ?_ }
    rcases List.mem_append.mp inside with old | new
    · exact core.parked m' old mine
    · obtain rfl := List.mem_singleton.mp new
      exact call.prompt kind role mine current
  | ackRead role kind bound context =>
    exact { core with queue := core.queue.recvAck (fun new => (call.honest.beat kind new).trans bound) }
  | release readOnly rss role kind bound context won advanced =>
    obtain ⟨left, good⟩ := core.queue.release core.electorate core.nonempty
      (fun new => (call.honest.beat kind new).trans bound) won advanced
    have released : w.Core n { r with readOnly } := { core with queue := left }
    refine released.answerAll (fun req inside mine => ?_)
    obtain ⟨rs, listed, rfl⟩ := List.mem_map.mp inside
    exact good rs listed mine
  | noteRead role kind =>
    refine { core with states := fun st inside mine => ?_ }
    rcases List.mem_append.mp inside with old | new
    · exact core.states st old mine
    · obtain rfl := List.mem_singleton.mp new
      exact call.honest.answer kind mine

theorem Core.works (core : w.Core n r) {calls : List (Raft × Message)}
    (each : ∀ call ∈ calls, w.Call call.1 call.2) (works : Raft.Works calls r r') : w.Core n r' := by
  refine works.keeps (fun _ _ core same => core.calm (calm_soft same)) ?_ core
  intro r0 m r r' call _ core act
  refine core.act ?_ act
  rcases call with inside | ⟨_, kind⟩
  · exact each (r0, m) inside
  · refine ⟨honest_of_type ?_ ?_ ?_, ?_, ?_, ?_, ?_, ?_⟩
    all_goals rcases kind with kind | kind | kind <;> simp [Raft.Current, kind]

end Core

/-! ### The host -/

structure Host (w : Watch) (n : Nat) (node : Node) : Prop where
  core : w.Core n node.r
  lent : ∀ msg ∈ node.rd.messages, w.Honest msg
  states : ∀ st ∈ node.rd.readStates, st.requestCtx = w.ctx → w.Good st.index
  steps : ∀ msg ∈ node.stepsOnAdvance, w.Honest msg ∧ afterAppend msg.type = true

section Host

variable {n : Nat} {node node' mid : Node}

theorem Host.withRaft (host : w.Host n node) {r : Raft} (core : w.Core n r) : w.Host n (node.withRaft r) := by
  obtain ⟨same, steps, _⟩ := withRaft_rest node r
  have states : (node.withRaft r).rd.readStates = node.rd.readStates := by
    unfold Node.withRaft
    split <;> rfl
  refine ⟨by rw [same]; exact core, ?_, by rw [states]; exact host.states, by rw [steps]; exact host.steps⟩
  rw [(withRaft_rd node r).1]
  exact host.lent

theorem Host.loopTop (host : w.Host n node) (top : node.loopTop = .ok node') : w.Host n node' := by
  rcases Cluster.loopTop_cases top with ⟨rfl, _⟩ | ⟨_, _, rd, ready, rfl⟩
  · exact host
  have shows := Node.ready_shows ready
  refine { host with lent := fun msg inside => ?_, states := fun st inside => ?_ }
  · exact host.core.held msg (Raft.held_of_shows shows msg inside)
  · have same : rd.readStates = node.r.readStates := shows.readStates
    exact host.core.states st (same ▸ inside)

theorem Host.accept (host : w.Host n node) : w.Host n node.accept := by
  have calm : Calm node.r { node.r with msgsAfterAppend := [] } := by
    refine ⟨rfl, rfl, rfl, le_rfl, le_rfl, .inr ⟨rfl, rfl, rfl⟩, fun _ => id, fun msg inside => ?_, by simp⟩
    simp only [Raft.held, List.append_nil] at inside
    exact List.mem_append_left _ inside
  refine { host with core := host.core.calm calm, steps := fun msg inside => ?_ }
  rcases List.mem_append.mp inside with old | new
  · exact host.steps msg old
  · have queued := (List.mem_filter.mp new).1
    exact ⟨host.core.held msg (List.mem_append_right _ queued), host.core.after msg queued⟩

theorem advanceLog_le (l : RaftLog) (rd : Ready) : l.committed ≤ (Raft.advanceLog l rd).committed := by
  unfold Raft.advanceLog
  cases rd.entries.getLast? <;> cases rd.committedEntries.getLast? <;>
    simp [RaftLog.appliedTo, RaftLog.stableTo]

theorem Host.advance (host : w.Host n node) (each : ∀ call ∈ node.stepCalls .advance, w.Call call.1 call.2)
    (works : Raft.Works (node.stepCalls .advance) (node.r.advance node.rd) mid.r) (done : node.advance = .ok mid) :
    w.Host n mid := by
  have calm : Calm node.r (node.r.advance node.rd) := by
    refine ⟨rfl, rfl, rfl, le_rfl, advanceLog_le _ _, .inr ⟨rfl, rfl, rfl⟩, ?_, fun msg inside => ?_, fun _ => id⟩
    · simp [Raft.advance]
    · simp only [Raft.held, Raft.advance, List.nil_append] at inside
      exact List.mem_append_right _ inside
  have core := (host.core.calm calm).works each works
  obtain ⟨r', _, last⟩ := Outcome.bind_eq_ok.mp done
  cases last
  exact ⟨core, by simp, by simp, by simp⟩

theorem Host.withStorage (host : w.Host n node) (storage : MemStorage) :
    w.Host n (Cluster.withStorage node storage) :=
  { host with core := host.core.calm (calm_of_eq rfl rfl rfl rfl le_rfl rfl rfl rfl rfl rfl) }

theorem Host.selected (host : w.Host n node) {arm : Node.Event} (each : ∀ call ∈ node.stepCalls arm, w.Call call.1 call.2)
    (selected : node.Selected arm mid) : w.Host n mid := by
  cases selected with
  | idle => exact host
  | work r' _ works => exact host.withRaft (host.core.works each works)
  | accept => exact host.accept
  | advance _ kind _ works done =>
    subst kind
    exact host.advance each works done

end Host

end Watch

end Kvgo

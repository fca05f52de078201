import Kvgo.Lib.TermLogSteps
import Kvgo.Raft.LogView
import Kvgo.Raft.Election

/-! The log of one node as part of a replicated log with elected leaders.

A history keeps every vote, the log of each leader and what each node took over from
it. The state of a node, and each message it queues, is tied to the history; an act
of the node is matched by acts in the history, provided the call of `Step` is tame.
A tame call avoids the branches of the source in which a log loses acknowledged
entries, or in which a message of an earlier term counts for the current one. -/

namespace Kvgo

abbrev History := TermLog.State Nat Entry

/-! Messages. -/

/-- An append carries a part of its leader's log and commits no more than that part. -/
structure AppOK (voters : List Nat) (s : History) (msg : Message) : Prop where
  leads : s.leader msg.term = some msg.fromId
  bound : msg.index + msg.entries.length ≤ (s.llog msg.term).length
  entries : msg.entries = ((s.llog msg.term).drop msg.index).take msg.entries.length
  indexed : IndexedFrom (msg.index + 1) msg.entries
  prev : termAt (s.llog msg.term) msg.index = some msg.logTerm
  commit : msg.commit ≤ msg.index + msg.entries.length
  safe : TermLog.Safe voters s msg.term ((s.llog msg.term).take msg.commit)

structure MsgOK (voters : List Nat) (s : History) (msg : Message) : Prop where
  app : msg.type = .msgApp → AppOK voters s msg
  resp : msg.type = .msgAppResp → s.leader msg.term = some msg.toId ∧ msg.term ≤ s.term msg.fromId
  ack : msg.type = .msgAppResp → msg.reject = false → msg.index ≤ s.acked msg.fromId msg.term
  beat : msg.type = .msgHeartbeat → s.leader msg.term = some msg.fromId ∧
    msg.commit ≤ s.acked msg.toId msg.term ∧
    TermLog.Safe voters s msg.term ((s.llog msg.term).take msg.commit)
  ask : msg.type = .msgVote → msg.fromId ≠ None ∧ ∃ L, s.stand msg.term msg.fromId = some L ∧
    msg.index = L.length ∧ msg.logTerm = TermLog.lastTerm Entry.term L
  grant : msg.type = .msgVoteResp → msg.reject = false → s.vote msg.fromId msg.term = some msg.toId
  noSnap : msg.type ≠ .msgSnap
  apart : msg.type = .msgApp ∨ msg.type = .msgHeartbeat ∨ msg.type = .msgHeartbeatResp →
    msg.fromId ≠ msg.toId

section Messages

variable {voters : List Nat} {s s' : History} {msg : Message}

theorem AppOK.ext (inv : TermLog.Inv Entry.term voters s) (ext : TermLog.Ext s s')
    (ok : AppOK voters s msg) : AppOK voters s' msg where
  leads := ext.leader _ _ ok.leads
  bound := ok.bound.trans (ext.llog _).length_le
  entries := by rw [TermLog.slice_of_isPrefix (ext.llog _) ok.bound]; exact ok.entries
  indexed := ok.indexed
  prev := by
    have same : TermLog.Agree msg.index (s.llog msg.term) (s'.llog msg.term) :=
      (TermLog.Agree.refl (by have := ok.bound; omega)).right (ext.llog _)
    rw [← termAt_congr same]
    exact ok.prev
  commit := ok.commit
  safe := by
    rw [TermLog.take_of_isPrefix (ext.llog _) (ok.commit.trans ok.bound)]
    exact inv.safe_ext ext ok.safe

theorem MsgOK.ext (inv : TermLog.Inv Entry.term voters s) (ext : TermLog.Ext s s')
    (ok : MsgOK voters s msg) : MsgOK voters s' msg where
  app kind := (ok.app kind).ext inv ext
  resp kind := (ok.resp kind).imp (ext.leader _ _) (fun low => low.trans (ext.term _))
  ack kind yes := (ok.ack kind yes).trans (ext.acked _ _)
  beat kind := by
    obtain ⟨leads, low, safe⟩ := ok.beat kind
    refine ⟨ext.leader _ _ leads, low.trans (ext.acked _ _), ?_⟩
    rw [TermLog.take_of_isPrefix (ext.llog _) (low.trans (inv.ackedBound _ _))]
    exact inv.safe_ext ext safe
  ask kind := by
    obtain ⟨known, L, stood, rest⟩ := ok.ask kind
    exact ⟨known, L, ext.stand _ _ L stood, rest⟩
  grant kind yes := ext.vote _ _ _ (ok.grant kind yes)
  noSnap := ok.noSnap
  apart := ok.apart

theorem AppOK.entry {m : Message} (app : AppOK voters s m) {j : Nat} {e : Entry}
    (here : m.entries[j]? = some e) :
    (s.llog m.term)[m.index + j]? = some e ∧ e.index = m.index + 1 + j := by
  refine ⟨?_, app.indexed j e here⟩
  have inside := (List.getElem?_eq_some_iff.mp here).1
  rw [app.entries, List.getElem?_take_of_lt inside, List.getElem?_drop] at here
  exact here

theorem AppOK.take {m : Message} (app : AppOK voters s m) :
    (s.llog m.term).take (m.index + m.entries.length) =
      (s.llog m.term).take m.index ++ m.entries := by
  rw [List.take_add, ← app.entries]

def isSilent (msg : Message) : Bool :=
  Raft.isIdle msg || msg.type == .msgReadIndex || msg.type == .msgReadIndexResp ||
    msg.type == .msgProp || msg.type == .msgTransferLeader || msg.type == .msgHup ||
    msg.type == .msgBeat || msg.type == .msgCheckQuorum

theorem msgOK_of_silent (silent : isSilent msg = true) : MsgOK voters s msg := by
  constructor
  case apart => rintro (kind | kind | kind) <;> simp [isSilent, Raft.isIdle, kind] at silent
  all_goals intro kind; simp [isSilent, Raft.isIdle, kind] at silent
  intro yes
  simp [silent] at yes

end Messages

/-! Tame calls. -/

namespace RaftLog

def agrees (l : RaftLog) (i term : Nat) : Bool :=
  match l.matchTerm i term with
  | .ok same => same
  | .error _ => false

theorem Layered.agrees {l : RaftLog} (ok : l.Layered) {i term : Nat}
    (bound : i ≤ l.view.length) : l.agrees i term = true ↔ termAt l.view i = some term := by
  rw [RaftLog.agrees, ok.matchTerm bound]
  simp

def conflicts (l : RaftLog) (ents : List Entry) : Bool :=
  ents.any (fun e => decide (e.index ≤ l.lastIndex) && !l.agrees e.index e.term)

def cutsInPlace (l : RaftLog) (m : Message) : Bool :=
  let u := l.unstable
  decide (u.offset < m.index + 1) && decide (m.index + 1 < u.offset + u.entries.length) &&
    decide (m.index + 1 - u.offset + m.entries.length ≤ u.backing.length)

end RaftLog

namespace Raft

/-- A message of a leader to another node, or an append response to a leader, is not
of an earlier term. -/
def Current (r : Raft) (m : Message) : Prop :=
  (m.type = .msgApp ∨ m.type = .msgHeartbeat) ∧ r.state ≠ .leader ∨
    m.type = .msgAppResp ∧ r.state = .leader → r.term ≤ m.term

/-- An append that the node takes over does not start beyond its log, does not drop
entries at the end of the log unless it contradicts the log, and does not overwrite
entries of a `Ready` that shares the array `lent` with other ones. -/
structure Fits (lent : Option Nat) (l : RaftLog) (m : Message) : Prop where
  inside : m.index ≤ l.lastIndex
  keeps : m.entries = [] ∨ l.lastIndex ≤ m.index + m.entries.length ∨ l.conflicts m.entries = true
  apart : lent = some l.unstable.array → l.cutsInPlace m = true → l.conflicts m.entries = false

def Backs (r : Raft) (m : Message) : Prop :=
  m.type = .msgAppResp ∧ r.state = .leader ∧ m.reject = true →
    ∀ p ∈ r.trk.progress m.fromId, 1 < p.nextIndex

structure Tame (lent : Option Nat) (r : Raft) (m : Message) : Prop where
  current : Current r m
  fits : m.type = .msgApp → r.heeds m = true → r.raftLog.agrees m.index m.logTerm = true →
    Fits lent r.raftLog m
  backs : Backs r m

instance (r : Raft) (m : Message) : Decidable (Current r m) := by unfold Current; infer_instance

instance (lent : Option Nat) (l : RaftLog) (m : Message) : Decidable (Fits lent l m) :=
  decidable_of_iff (m.index ≤ l.lastIndex ∧
    (m.entries = [] ∨ l.lastIndex ≤ m.index + m.entries.length ∨ l.conflicts m.entries = true) ∧
    (lent = some l.unstable.array → l.cutsInPlace m = true → l.conflicts m.entries = false))
    ⟨fun ⟨inside, keeps, apart⟩ => ⟨inside, keeps, apart⟩,
      fun ⟨inside, keeps, apart⟩ => ⟨inside, keeps, apart⟩⟩

instance (r : Raft) (m : Message) : Decidable (Backs r m) := by unfold Backs; infer_instance

instance (lent : Option Nat) (r : Raft) (m : Message) : Decidable (Tame lent r m) :=
  decidable_of_iff (Current r m ∧ (m.type = .msgApp → r.heeds m = true →
      r.raftLog.agrees m.index m.logTerm = true → Fits lent r.raftLog m) ∧ Backs r m)
    ⟨fun ⟨current, fits, backs⟩ => ⟨current, fits, backs⟩,
      fun ⟨current, fits, backs⟩ => ⟨current, fits, backs⟩⟩

/-! The state of a node. -/

structure Sim (voters : List Nat) (s : History) (n : Nat) (r : Raft) : Prop where
  id : r.id = n
  nonzero : n ≠ None
  nonempty : r.trk.voters.size ≠ 0
  electorate : r.trk.voters.ids.Perm voters
  layered : r.raftLog.Layered
  log : s.log n = r.raftLog.view
  term : s.term n = r.term
  vote : s.vote n r.term = if r.votedFor = None then none else some r.votedFor
  safe : TermLog.Safe voters s r.term (r.raftLog.view.take r.raftLog.committed)
  stands : r.state = .candidate →
    s.stand r.term n = some r.raftLog.view ∧ s.leader r.term ≠ some n
  backed : r.state = .candidate → ∀ q, r.trk.votes q = some true → s.vote q r.term = some n
  leads : r.state = .leader → s.leader r.term = some n ∧ s.llog r.term = r.raftLog.view
  acked : r.state = .leader → ∀ q p, r.trk.progress q = some p → p.matchIndex ≤ s.acked q r.term
  next : r.state = .leader → ∀ q p, r.trk.progress q = some p →
    0 < p.nextIndex ∧ p.nextIndex ≤ r.raftLog.view.length + 1
  held : ∀ msg ∈ r.held, MsgOK voters s msg

section Keep

variable {voters : List Nat} {s s' : History} {n : Nat} {r r' : Raft}

/-- Two states with the same log, term and vote, the second of which plays no larger
role in the election or the replication. -/
structure Still (r r' : Raft) : Prop where
  id : r'.id = r.id
  voters : r'.trk.voters = r.trk.voters
  raftLog : r'.raftLog = r.raftLog
  term : r'.term = r.term
  votedFor : r'.votedFor = r.votedFor
  role : r'.state = .follower ∨ r'.state = .preCandidate ∨
    r'.state = r.state ∧ r'.trk.votes = r.trk.votes ∧
      ∀ q, (r'.trk.progress q).map (fun p => (p.matchIndex, p.nextIndex)) =
        (r.trk.progress q).map (fun p => (p.matchIndex, p.nextIndex))

theorem Still.progress {q : Nat} {p' : Progress}
    (same : ∀ q, (r'.trk.progress q).map (fun p => (p.matchIndex, p.nextIndex)) =
      (r.trk.progress q).map (fun p => (p.matchIndex, p.nextIndex)))
    (tracked : r'.trk.progress q = some p') :
    ∃ p, r.trk.progress q = some p ∧ p.matchIndex = p'.matchIndex ∧ p.nextIndex = p'.nextIndex := by
  have here := same q
  rw [tracked] at here
  obtain ⟨p, found, pair⟩ := Option.map_eq_some_iff.mp here.symm
  simp only [Prod.mk.injEq] at pair
  exact ⟨p, found, pair⟩

theorem Sim.still (sim : Sim voters s n r) (still : Still r r')
    (held : ∀ msg ∈ r'.held, msg ∈ r.held ∨ MsgOK voters s msg) : Sim voters s n r' where
  id := still.id.trans sim.id
  nonzero := sim.nonzero
  nonempty := still.voters ▸ sim.nonempty
  electorate := still.voters ▸ sim.electorate
  layered := still.raftLog ▸ sim.layered
  log := still.raftLog ▸ sim.log
  term := still.term ▸ sim.term
  vote := by rw [still.term, still.votedFor]; exact sim.vote
  safe := by rw [still.term, still.raftLog]; exact sim.safe
  stands role := by
    rcases still.role with other | other | ⟨same, _⟩
    · simp [other] at role
    · simp [other] at role
    · rw [still.term, still.raftLog]; exact sim.stands (same ▸ role)
  backed role q yes := by
    rcases still.role with other | other | ⟨same, votes, _⟩
    · simp [other] at role
    · simp [other] at role
    · rw [still.term]; exact sim.backed (same ▸ role) q (votes ▸ yes)
  leads role := by
    rcases still.role with other | other | ⟨same, _⟩
    · simp [other] at role
    · simp [other] at role
    · rw [still.term, still.raftLog]; exact sim.leads (same ▸ role)
  acked role q p' tracked := by
    rcases still.role with other | other | ⟨same, _, progress⟩
    · simp [other] at role
    · simp [other] at role
    · obtain ⟨p, found, matched, _⟩ := Still.progress progress tracked
      rw [still.term, ← matched]
      exact sim.acked (same ▸ role) q p found
  next role q p' tracked := by
    rcases still.role with other | other | ⟨same, _, progress⟩
    · simp [other] at role
    · simp [other] at role
    · obtain ⟨p, found, _, next⟩ := Still.progress progress tracked
      rw [still.raftLog, ← next]
      exact sim.next (same ▸ role) q p found
  held msg inside := (held msg inside).elim (sim.held msg) (fun ok => ok)

theorem Sim.enqueue (sim : Sim voters s n r) {msg : Message} (ok : MsgOK voters s msg) :
    Sim voters s n (r.enqueue msg) := by
  refine sim.still ⟨by simp, by simp, by simp, by simp, by simp, .inr (.inr ⟨by simp, by simp, by simp⟩)⟩ ?_
  intro other inside
  exact (held_enqueue r msg inside).imp_right (fun (same : other = msg) => same ▸ ok)

theorem held_answerAll (r : Raft) (reqs : List (Message × Nat)) {msg : Message}
    (inside : msg ∈ (r.answerAll reqs).held) : msg ∈ r.held ∨ msg.type = .msgReadIndexResp := by
  simp only [held, answerAll, List.mem_append, List.mem_filterMap] at inside ⊢
  rcases inside with (old | ⟨req, _, answer⟩) | after
  · exact .inl (.inl old)
  · right
    simp only [remoteAnswer] at answer
    split at answer
    · cases answer
    · cases answer; simp
  · exact .inl (.inr after)

theorem Sim.answerAll (sim : Sim voters s n r) (reqs : List (Message × Nat)) :
    Sim voters s n (r.answerAll reqs) := by
  refine sim.still ⟨rfl, rfl, rfl, rfl, rfl, .inr (.inr ⟨rfl, rfl, fun _ => rfl⟩)⟩ ?_
  intro msg inside
  exact (held_answerAll r reqs inside).imp_right (fun kind => msgOK_of_silent (by simp [isSilent, kind]))

theorem Sim.reads (sim : Sim voters s n r) (readOnly : ReadOnly) (pending : List Message)
    (readStates : List ReadState) : Sim voters s n { r with
      readOnly, pendingReadIndexRequests := pending, readStates } :=
  sim.still ⟨rfl, rfl, rfl, rfl, rfl, .inr (.inr ⟨rfl, rfl, fun _ => rfl⟩)⟩ (fun _ inside => .inl inside)

theorem Sim.soft (sim : Sim voters s n r) (same : Soft r r') : Sim voters s n r' := by
  refine sim.still ⟨same.id, same.voters, same.raftLog, same.term, same.votedFor,
    .inr (.inr ⟨same.state, same.votes, same.progress⟩)⟩ (fun msg inside => .inl ?_)
  simpa [Raft.held, same.messages, same.msgsAfterAppend] using inside

theorem Sim.yield (sim : Sim voters s n r) (lead : Nat) :
    Sim voters s n (r.becomeFollower r.term lead) := by
  refine sim.still ⟨by simp, by simp, by simp, by simp, by simp, .inl (by simp)⟩ (fun msg inside => .inl ?_)
  simpa [Raft.held] using inside

/-- What a longer history keeps true of a node that does not act. -/
theorem Sim.frame (sim : Sim voters s n r) (inv : TermLog.Inv Entry.term voters s)
    (ext : TermLog.Ext s s') {other : Nat} (frame : TermLog.Frame other s s') (differ : n ≠ other) :
    Sim voters s' n r where
  id := sim.id
  nonzero := sim.nonzero
  nonempty := sim.nonempty
  electorate := sim.electorate
  layered := sim.layered
  log := (frame.log n differ).trans sim.log
  term := (frame.term n differ).trans sim.term
  vote := (frame.vote n _ differ).trans sim.vote
  safe := inv.safe_ext ext sim.safe
  stands role := by
    obtain ⟨stood, new⟩ := sim.stands role
    exact ⟨ext.stand _ _ _ stood, fun led => new (frame.leader _ n differ led)⟩
  backed role q yes := ext.vote _ _ _ (sim.backed role q yes)
  leads role := by
    obtain ⟨led, own⟩ := sim.leads role
    exact ⟨ext.leader _ _ led, (frame.llog _ n differ led).trans own⟩
  acked role q p tracked := (sim.acked role q p tracked).trans (ext.acked _ _)
  next := sim.next
  held msg inside := (sim.held msg inside).ext inv ext

/-! Acts that change the term, the vote or the role. -/

theorem Sim.follow (sim : Sim voters s n r) (inv : TermLog.Inv Entry.term voters s) {term : Nat}
    (later : r.term < term) (lead : Nat) :
    ∃ s', TermLog.Moves Entry.term voters n s s' ∧ Sim voters s' n (r.becomeFollower term lead) := by
  have step : TermLog.Step Entry.term voters n s (s.raise n term) := .raise term (sim.term ▸ later)
  have ext := (inv.step step).2
  refine ⟨_, .single step, ?_⟩
  refine ⟨by simpa using sim.id, sim.nonzero, by simpa using sim.nonempty, by simpa using sim.electorate,
    by simpa using sim.layered, by simpa [TermLog.State.raise] using sim.log,
    by simp [TermLog.State.raise], ?_, ?_, by simp, by simp, by simp, by simp, by simp, ?_⟩
  · have none : s.vote n term = none := by
      by_contra voted
      obtain ⟨c, found⟩ := Option.ne_none_iff_exists'.mp voted
      have := (inv.voted n term c found).1
      have := sim.term
      omega
    simpa [TermLog.State.raise, later.ne] using none
  · simpa using (inv.safe_ext ext sim.safe).mono later.le
  · intro msg inside
    refine (sim.held msg ?_).ext inv ext
    simpa [Raft.held] using inside

theorem Sim.candidacy (sim : Sim voters s n r) (inv : TermLog.Inv Entry.term voters s) :
    ∃ s', TermLog.Moves Entry.term voters n s s' ∧
      Sim voters s' n (r.becomeCandidate.recordVote r.id true) := by
  have ext := (inv.step (.stand (τ := Entry.term) (n := n))).2
  have log : (r.becomeCandidate.recordVote r.id true).raftLog = r.raftLog := by
    simp [becomeCandidate, Raft.recordVote]
  have term : (r.becomeCandidate.recordVote r.id true).term = r.term + 1 := by
    simp [becomeCandidate, Raft.recordVote]
  have now := sim.term
  refine ⟨_, .single .stand, ?_⟩
  refine ⟨by simpa [becomeCandidate, Raft.recordVote] using sim.id, sim.nonzero,
    by simpa [becomeCandidate, Raft.recordVote] using sim.nonempty,
    by simpa [becomeCandidate, Raft.recordVote] using sim.electorate, log ▸ sim.layered, log ▸ sim.log,
    by simp [TermLog.State.standFor, term, now], ?_, ?_, ?_, ?_, by simp, by simp, by simp, ?_⟩
  · simp [← now, TermLog.State.standFor, becomeCandidate, Raft.recordVote, sim.id, sim.nonzero]
  · rw [log, term]; exact (inv.safe_ext ext sim.safe).mono (Nat.le_succ _)
  · intro _
    rw [term, log, ← now]
    refine ⟨by simp [TermLog.State.standFor, sim.log], fun led => ?_⟩
    -- a node does not lead a term that it has not reached
    obtain ⟨L, stood, _⟩ := inv.led _ n led
    have := (inv.stood _ n L stood).1
    omega
  · intro _ q yes
    have self : q = n := by
      by_contra other
      have : r.id ≠ q := fun same => other (same ▸ sim.id)
      simp [becomeCandidate, Raft.recordVote, ProgressTracker.recordVote, ProgressTracker.visit,
        ProgressTracker.resetVotes, Function.update_of_ne this.symm] at yes
    rw [term, ← now, self]
    simp [TermLog.State.standFor]
  · intro msg inside
    refine (sim.held msg ?_).ext inv ext
    simpa [Raft.held, becomeCandidate, Raft.recordVote] using inside

theorem Sim.tally (sim : Sim voters s n r) {id : Nat} {v : Bool}
    (backed : r.state = .candidate → v = true → s.vote id r.term = some n) :
    Sim voters s n (r.recordVote id v) where
  id := sim.id
  nonzero := sim.nonzero
  nonempty := sim.nonempty
  electorate := sim.electorate
  layered := sim.layered
  log := sim.log
  term := sim.term
  vote := sim.vote
  safe := sim.safe
  stands := sim.stands
  backed role q yes := by
    by_cases same : q = id
    · subst same
      refine backed role ?_
      simpa [Raft.recordVote, ProgressTracker.recordVote] using yes
    · refine sim.backed role q ?_
      simpa [Raft.recordVote, ProgressTracker.recordVote, same] using yes
  leads := sim.leads
  acked := sim.acked
  next := sim.next
  held := sim.held

theorem Sim.takeLead (sim : Sim voters s n r) (inv : TermLog.Inv Entry.term voters s) {led : Raft}
    (role : r.state = .candidate) (won : r.trk.tallyVotes = .voteWon) (took : TookLead r led) :
    ∃ s', TermLog.Moves Entry.term voters n s s' ∧ Sim voters s' n led := by
  obtain ⟨stood, new⟩ := sim.stands role
  have most := (Majority.perm sim.electorate).mp (MajorityConfig.voteResult_won sim.nonempty won)
  have now := sim.term
  have step : TermLog.Step Entry.term voters n s (s.elect n) := by
    refine .elect ?_ (most.mono (fun q _ yes => ?_)) ?_ <;> rw [now]
    · rw [sim.log]; exact stood
    · exact sim.backed role q yes
    · exact new
  have ext := (inv.step step).2
  refine ⟨_, .single step, ?_⟩
  have last := sim.layered.lastIndex
  refine ⟨took.id.trans sim.id, sim.nonzero, took.voters ▸ sim.nonempty, took.voters ▸ sim.electorate,
    took.raftLog ▸ sim.layered, took.raftLog ▸ sim.log, took.term ▸ sim.term, ?_, ?_,
    by simp [took.state], by simp [took.state], ?_, ?_, ?_, ?_⟩
  · rw [took.term, took.votedFor]; exact sim.vote
  · rw [took.raftLog, took.term]; exact inv.safe_ext ext sim.safe
  · intro _
    rw [took.term, took.raftLog, ← now]
    simp [TermLog.State.elect, sim.log]
  · intro _ q p tracked
    rw [(took.tracked tracked).1, took.term]
    split
    · rename_i self
      rw [self, sim.id, last, ← now, ← sim.log]
      simp [TermLog.State.elect]
    · exact Nat.zero_le _
  · intro _ q p tracked
    rw [(took.tracked tracked).2, took.raftLog, last]
    omega
  · intro msg inside
    refine (sim.held msg ?_).ext inv ext
    simpa [Raft.held, took.messages, took.msgsAfterAppend] using inside

theorem Sim.grant (sim : Sim voters s n r) (inv : TermLog.Inv Entry.term voters s) {m : Message}
    (ok : MsgOK voters s m) (kind : m.type = .msgVote) (granted : r.grants m = .ok true)
    (bound : m.term ≤ r.term) :
    ∃ s', TermLog.Moves Entry.term voters n s s' ∧
      Sim voters s' n (({ r with votedFor := m.fromId } : Raft).enqueue
        { type := .msgVoteResp, fromId := r.id, toId := m.fromId, term := r.term }) := by
  obtain ⟨fresh, free⟩ := canVoteFor_of_grants granted
  obtain ⟨known, L, stood, length, lastTerm⟩ := ok.ask kind
  have now := sim.term
  have same : m.term = r.term := by omega
  have upToDate : TermLog.UpToDate Entry.term L (s.log n) := by
    have allowed : r.raftLog.isUpToDate m.index m.logTerm = .ok true := by
      unfold grants at granted
      split at granted
      · exact granted
      · cases granted
    rw [length, lastTerm] at allowed
    rw [sim.log]
    exact sim.layered.isUpToDate allowed
  have step : TermLog.Step Entry.term voters n s (s.grant n m.fromId) := by
    refine .grant m.fromId L (by rw [now, ← same]; exact stood) upToDate ?_
    rw [now, sim.vote]
    rcases free same with none | voted
    · simp [none]
    · simp [voted, known]
  obtain ⟨_, ext⟩ := inv.step step
  refine ⟨_, .single step, ?_⟩
  have voted : Sim voters (s.grant n m.fromId) n { r with votedFor := m.fromId } := by
    refine ⟨sim.id, sim.nonzero, sim.nonempty, sim.electorate, sim.layered, sim.log, sim.term, ?_,
      inv.safe_ext ext sim.safe, sim.stands, fun role q yes => ext.vote _ _ _ (sim.backed role q yes),
      sim.leads, sim.acked, sim.next, fun msg inside => (sim.held msg inside).ext inv ext⟩
    simp [TermLog.State.grant, ← now, known]
  refine voted.enqueue ⟨by simp, by simp, by simp, by simp, by simp, fun _ _ => ?_, by simp, by simp⟩
  simp [TermLog.State.grant, sim.id, ← now]

/-! Acts on the log. -/

/-- What a change of the log does to a `Ready` that shares the array `lent`. -/
structure Memory (lent : Option Nat) (l l' : RaftLog) : Prop where
  storage : l'.storage = l.storage
  array : l.unstable.array ≤ l'.unstable.array
  offset : l'.unstable.offset ≤ l.unstable.offset
  nonempty : l'.unstable.entries = [] → l.unstable.entries = []
  shared : lent = some l.unstable.array → l'.unstable.array = l.unstable.array →
    l'.unstable.offset = l.unstable.offset ∧ l.unstable.entries <+: l'.unstable.entries

theorem Memory.of_eq {lent : Option Nat} {l l' : RaftLog} (storage : l'.storage = l.storage)
    (unstable : l'.unstable = l.unstable) : Memory lent l l' := by
  refine ⟨storage, ?_, ?_, ?_, ?_⟩ <;> rw [unstable]
  · exact fun none => none
  · exact fun _ _ => ⟨rfl, List.prefix_refl _⟩

theorem Memory.trans {lent : Option Nat} {l l' l'' : RaftLog} (first : Memory lent l l')
    (second : Memory lent l' l'') : Memory lent l l'' where
  storage := second.storage.trans first.storage
  array := first.array.trans second.array
  offset := second.offset.trans first.offset
  nonempty none := first.nonempty (second.nonempty none)
  shared here same := by
    have mid : l'.unstable.array = l.unstable.array := by
      have := first.array
      have := second.array
      omega
    obtain ⟨offset, sub⟩ := first.shared here mid
    obtain ⟨offset', sub'⟩ := second.shared (mid ▸ here) (same.trans mid.symm)
    exact ⟨offset'.trans offset, sub.trans sub'⟩

theorem memory_of_appended {lent : Option Nat} {l l' : RaftLog} {k : Nat} {ents : List Entry}
    (done : RaftLog.Appended l k ents l')
    (extends_ : lent = some l.unstable.array → l'.unstable.array = l.unstable.array →
      l.unstable.entries <+: l'.unstable.entries) : Memory lent l l' where
  storage := done.storage
  array := by rcases done.memory with moved | inPlace <;> omega
  offset := by rcases done.memory with moved | inPlace <;> omega
  nonempty none := absurd none done.nonempty
  shared here same := by
    refine ⟨?_, extends_ here same⟩
    rcases done.memory with moved | inPlace <;> omega

/-- A leader appends an entry of its own. -/
theorem Sim.appendEntry (sim : Sim voters s n r) (inv : TermLog.Inv Entry.term voters s) {data : Bytes}
    (role : r.state = .leader) (appended : r.appendEntry data = .ok r') (lent : Option Nat) :
    (∃ s', TermLog.Moves Entry.term voters n s s' ∧ Sim voters s' n r') ∧
      Memory lent r.raftLog r'.raftLog := by
  obtain ⟨raftLog, done, rfl⟩ := appendEntry_eq appended
  obtain ⟨led, own⟩ := sim.leads role
  have now := sim.term
  have last := sim.layered.lastIndex
  set e : Entry := ⟨r.raftLog.lastIndex + 1, r.term, data⟩ with entry
  have indexed : IndexedFrom (r.raftLog.view.length + 1) [e] := by
    intro i d here
    obtain ⟨rfl, rfl⟩ : i = 0 ∧ e = d := by simpa [List.getElem?_singleton] using here
    simp [entry, last]
  have grown := sim.layered.appendEntries le_rfl indexed (by simp) done
  have view : raftLog.view = r.raftLog.view ++ [e] := by simpa using grown.view
  have step : TermLog.Step Entry.term voters n s (s.append n e) := by
    refine .append e (now ▸ led) ?_ ?_ <;> rw [now]
    rw [own, sim.log]
  have ext := (inv.step step).2
  refine ⟨⟨_, .single step, ?_⟩, ?_⟩
  · have moved : Sim voters (s.append n e) n { r with draws := r.draws + 1, raftLog } := by
      refine ⟨sim.id, sim.nonzero, sim.nonempty, sim.electorate, grown.layered, ?_, sim.term, sim.vote, ?_,
        by simp [role], by simp [role], fun _ => ⟨led, ?_⟩,
        fun _ q p tracked => (sim.acked role q p tracked).trans (ext.acked _ _), ?_,
        fun msg inside => (sim.held msg inside).ext inv ext⟩
      · simp [TermLog.State.append, view, sim.log]
      · have short := sim.layered.committed
        simp only [view, grown.committed]
        rw [List.take_append_of_le_length short]
        exact inv.safe_ext ext sim.safe
      · simp [TermLog.State.append, ← now, view, sim.log]
      · intro _ q p tracked
        have := sim.next role q p tracked
        simp only [view, List.length_append, List.length_singleton]
        omega
    refine moved.enqueue ⟨by simp [selfAck], fun _ => ?_, fun _ _ => ?_, by simp [selfAck], by simp [selfAck],
      by simp [selfAck], by simp [selfAck], by simp [selfAck]⟩
    · exact ⟨by simpa [selfAck, sim.id, TermLog.State.append] using led,
        by simp [selfAck, sim.id, TermLog.State.append, now]⟩
    · rw [grown.layered.lastIndex, view]
      simp [selfAck, sim.id, TermLog.State.append, ← now, sim.log]
  · rw [enqueue_raftLog]
    refine memory_of_appended grown (fun _ same => ?_)
    rcases grown.memory with moved | ⟨_, _, _, entries, _⟩
    · simp only at same; omega
    · have length := sim.layered.length
      have positive := sim.layered.positive
      show r.raftLog.unstable.entries <+: raftLog.unstable.entries
      rw [entries, List.take_of_length_le (by omega)]
      exact List.prefix_append _ _

theorem agree_of_termAt {L M : List Entry} (okL : TermLog.LogOK Entry.term s L)
    (okM : TermLog.LogOK Entry.term s M) {i : Nat} (boundL : i ≤ L.length) (boundM : i ≤ M.length)
    (same : termAt L i = termAt M i) : TermLog.Agree i L M := by
  rcases Nat.eq_zero_or_pos i with rfl | positive
  · exact TermLog.agree_zero
  have inL : i - 1 < L.length := by omega
  have inM : i - 1 < M.length := by omega
  rw [termAt_pos positive, termAt_pos positive, List.getElem?_eq_getElem inL,
    List.getElem?_eq_getElem inM] at same
  have whole := okL.match okM (List.getElem?_eq_getElem inL) (List.getElem?_eq_getElem inM)
    (by simpa using same)
  rwa [show i - 1 + 1 = i by omega] at whole

theorem not_prefix_of_conflicts {l : RaftLog} {m : Message} (ok : l.Layered) (app : AppOK voters s m)
    (conflict : l.conflicts m.entries = true) :
    ¬(s.llog m.term).take (m.index + m.entries.length) <+: l.view := by
  intro sub
  obtain ⟨e, inside, differs⟩ := List.any_eq_true.mp conflict
  simp only [Bool.and_eq_true, decide_eq_true_eq, Bool.not_eq_true', ok.lastIndex] at differs
  obtain ⟨j, here⟩ := List.mem_iff_getElem?.mp inside
  obtain ⟨there, index⟩ := app.entry here
  have short := (List.getElem?_eq_some_iff.mp here).1
  have found : l.view[m.index + j]? = some e := by
    obtain ⟨rest, whole⟩ := sub
    rw [← whole, List.getElem?_append_left (by have := app.bound; simp; omega),
      List.getElem?_take_of_lt (by omega)]
    exact there
  have agree : l.agrees e.index e.term = true := by
    rw [ok.agrees differs.1, termAt_pos (by omega), show e.index - 1 = m.index + j by omega, found]
    rfl
  simp [agree] at differs

/-- An append that contradicts nothing and reaches the end extends the log. -/
theorem prefix_of_agrees {l : RaftLog} {m : Message} (inv : TermLog.Inv Entry.term voters s)
    (ok : l.Layered) (good : TermLog.LogOK Entry.term s l.view) (app : AppOK voters s m)
    (shared : TermLog.Agree m.index l.view (s.llog m.term))
    (reach : l.view.length ≤ m.index + m.entries.length) (fine : l.conflicts m.entries = false) :
    l.view <+: (s.llog m.term).take (m.index + m.entries.length) := by
  have bound := app.bound
  have whole : TermLog.Agree l.view.length l.view (s.llog m.term) := by
    rcases Nat.lt_or_ge m.index l.view.length with inside | all
    · refine agree_of_termAt good (inv.leaderLog _) le_rfl (by omega) ?_
      have short : l.view.length - 1 - m.index < m.entries.length := by omega
      obtain ⟨there, index⟩ := app.entry (List.getElem?_eq_getElem short)
      set e := m.entries[l.view.length - 1 - m.index] with entry
      have agree : l.agrees e.index e.term = true := by
        by_contra differs
        have : l.conflicts m.entries = true := by
          refine List.any_eq_true.mpr ⟨e, List.getElem_mem short, ?_⟩
          simp only [Bool.and_eq_true, decide_eq_true_eq, Bool.not_eq_true', ok.lastIndex]
          exact ⟨by omega, by simpa using differs⟩
        simp [fine] at this
      rw [ok.agrees (by omega), show e.index = l.view.length by omega] at agree
      rw [agree, termAt_pos (by omega), show l.view.length - 1 = m.index + (l.view.length - 1 - m.index) by omega,
        there]
      rfl
    · exact shared.mono all
  have prefix_ := whole.isPrefix rfl
  rw [List.prefix_take_iff]
  exact ⟨prefix_, reach⟩

/-- A follower takes over entries of its leader. -/
theorem Sim.takeEntries (sim : Sim voters s n r) (inv : TermLog.Inv Entry.term voters s)
    {lent : Option Nat} {m : Message} {room : Nat} (draws : Nat) {appended : RaftLog} (app : AppOK voters s m)
    (same : m.term = r.term) (role : r.state = .follower) (fits : Fits lent r.raftLog m)
    (matched : r.raftLog.matchTerm m.index m.logTerm = .ok true)
    (append : r.raftLog.appendEntries m.entries room = .ok appended) :
    (∃ s', TermLog.Moves Entry.term voters n s s' ∧
      Sim voters s' n { r with draws, raftLog := appended } ∧
      TermLog.Agree (m.index + m.entries.length) appended.view (s'.llog m.term) ∧
      (m.entries ≠ [] → s'.acked n m.term = m.index + m.entries.length)) ∧
    Memory lent r.raftLog appended := by
  have now := sim.term
  have good : TermLog.LogOK Entry.term s r.raftLog.view := sim.log ▸ (inv.nodeLog n).1
  have inside : m.index ≤ r.raftLog.view.length := sim.layered.lastIndex ▸ fits.inside
  have bound := app.bound
  have shared : TermLog.Agree m.index r.raftLog.view (s.llog m.term) := by
    refine agree_of_termAt good (inv.leaderLog _) inside (by omega) ?_
    rw [sim.layered.matchTerm inside] at matched
    rw [app.prev]
    simpa using matched
  by_cases none : m.entries = []
  · obtain rfl : appended = r.raftLog := by
      rw [none] at append
      cases append; rfl
    refine ⟨⟨s, .refl, ?_, by simpa [none] using shared, fun some => absurd none some⟩, .of_eq rfl rfl⟩
    exact sim.still ⟨rfl, rfl, rfl, rfl, rfl, .inl role⟩ (fun _ inside => .inl inside)
  have done := sim.layered.appendEntries inside app.indexed none append
  have view : appended.view = (s.llog m.term).take (m.index + m.entries.length) := by
    rw [done.view, app.take, shared.1]
  have reach : r.raftLog.conflicts m.entries = false →
      r.raftLog.view.length ≤ m.index + m.entries.length := fun fine => by
    rw [← sim.layered.lastIndex]
    exact (fits.keeps.resolve_left none).resolve_right (by simp [fine])
  have step : TermLog.Step Entry.term voters n s (s.accept n (m.index + m.entries.length)) := by
    refine .accept _ ?_ ?_ ?_ <;> rw [now, ← same]
    · simp [app.leads]
    · exact bound
    · rw [sim.log, ← sim.layered.lastIndex]
      exact (fits.keeps.resolve_left none).imp_right (not_prefix_of_conflicts sim.layered app)
  have ext := (inv.step step).2
  refine ⟨⟨_, .single step, ?_, ?_, fun _ => ?_⟩, memory_of_appended done (fun here stays => ?_)⟩
  · refine ⟨sim.id, sim.nonzero, sim.nonempty, sim.electorate, done.layered, ?_, sim.term, sim.vote, ?_,
      by simp [role], by simp [role], by simp [role], by simp [role], by simp [role],
      fun msg inside => (sim.held msg inside).ext inv ext⟩
    · simp only [TermLog.State.accept, Function.update_self, now, ← same, view]
    · have short := done.above
      simp only [done.view, done.committed]
      rw [List.take_append_of_le_length (by simp; omega), List.take_take, Nat.min_eq_left short]
      exact inv.safe_ext ext sim.safe
  · rw [view]
    exact TermLog.agree_take bound
  · simp [TermLog.State.accept, same, ← now]
  · -- written in place: what was lent is still there
    rcases done.memory with moved | ⟨_, offset, above, entries, room⟩
    · omega
    have length := sim.layered.length
    have positive := sim.layered.positive
    rcases Nat.lt_or_ge (m.index + 1) (r.raftLog.unstable.offset + r.raftLog.unstable.entries.length)
      with cut | all
    · have fine := fits.apart here (by simp [RaftLog.cutsInPlace]; omega)
      have longer := prefix_of_agrees inv sim.layered good app shared (reach fine) fine
      rw [← view, RaftLog.view, RaftLog.view, done.storage, offset] at longer
      exact (List.prefix_append_right_inj _).mp longer
    · rw [entries, List.take_of_length_le (by omega)]
      exact List.prefix_append _ _

theorem Sim.commitTo (sim : Sim voters s n r) {i : Nat} {raftLog : RaftLog}
    (safe : i ≤ r.raftLog.view.length → TermLog.Safe voters s r.term (r.raftLog.view.take i))
    (done : r.raftLog.commitTo i = .ok raftLog) : Sim voters s n { r with raftLog } := by
  rcases RaftLog.commitTo_eq_ok done with ⟨_, rfl⟩ | ⟨_, bound, rfl⟩
  · exact sim
  rw [sim.layered.lastIndex] at bound
  exact { sim with
    layered := { sim.layered with committed := bound }
    safe := safe bound }

theorem commitTo_memory {lent : Option Nat} {i : Nat} {l raftLog : RaftLog}
    (done : l.commitTo i = .ok raftLog) : Memory lent l raftLog := by
  rcases RaftLog.commitTo_eq_ok done with ⟨_, rfl⟩ | ⟨_, _, rfl⟩ <;> exact .of_eq rfl rfl

theorem acceptResp_fromId (m : Message) : (acceptResp m).fromId = None := by
  unfold acceptResp; split <;> rfl

theorem acceptResp_toId (m : Message) : (acceptResp m).toId = m.fromId := by
  unfold acceptResp; split <;> rfl

theorem acceptResp_index {m : Message} (indexed : IndexedFrom (m.index + 1) m.entries) :
    (acceptResp m).index = if m.entries = [] then 0 else m.index + m.entries.length := by
  unfold acceptResp
  split
  · rename_i none
    rw [if_pos (List.getLast?_eq_none_iff.mp none)]
  · rename_i last found
    have := indexed.last found
    rw [if_neg (by rintro none; simp [none] at found)]
    show last.index = _
    omega

theorem Sim.accept (sim : Sim voters s n r) (inv : TermLog.Inv Entry.term voters s)
    {lent : Option Nat} {m : Message} {appended committed : RaftLog} (app : AppOK voters s m)
    (same : m.term = r.term) (role : r.state = .follower) (fits : Fits lent r.raftLog m)
    (matched : r.raftLog.matchTerm m.index m.logTerm = .ok true)
    (append : r.raftLog.appendEntries m.entries (r.rng r.draws) = .ok appended)
    (commit : commitFromLeader appended m.commit = .ok committed) :
    (∃ s', TermLog.Moves Entry.term voters n s s' ∧
      Sim voters s' n (({ r with draws := r.draws + 1, raftLog := committed } : Raft).enqueue
        (r.stamp (acceptResp m)))) ∧
    Memory lent r.raftLog committed := by
  obtain ⟨⟨s', moves, sim', agree, acked⟩, memory⟩ :=
    sim.takeEntries inv (r.draws + 1) app same role fits matched append
  obtain ⟨_, ext, _⟩ := inv.moves moves
  have safe : TermLog.Safe voters s' r.term (appended.view.take m.commit) := by
    rw [← same, (agree.mono app.commit).1]
    exact (app.ext inv ext).safe
  have response : MsgOK voters s' (r.stamp (acceptResp m)) := by
    have sender : (r.stamp (acceptResp m)).fromId = n := by
      rw [stamp_fromId, acceptResp_fromId, if_pos rfl, sim.id]
    have term : (r.stamp (acceptResp m)).term = m.term := by
      unfold acceptResp; split <;> simp [stamp, same]
    refine ⟨by simp, fun _ => ?_, fun _ _ => ?_, by simp, by simp, by simp, by simp, by simp⟩
    · rw [sender, term, stamp_toId, acceptResp_toId]
      exact ⟨ext.leader _ _ app.leads, by rw [sim'.term, same]⟩
    · rw [stamp_index, acceptResp_index app.indexed, sender, term]
      split
      · exact Nat.zero_le _
      · rename_i some
        exact (acked some).ge
  unfold commitFromLeader at commit
  split at commit
  · refine ⟨⟨s', moves, Sim.enqueue ?_ response⟩, memory.trans (commitTo_memory commit)⟩
    exact sim'.commitTo (fun _ => safe.sub (List.take_prefix_take_left (Nat.min_le_left _ _))) commit
  · cases commit
    exact ⟨⟨s', moves, sim'.enqueue response⟩, memory⟩

theorem Sim.beat (sim : Sim voters s n r) (inv : TermLog.Inv Entry.term voters s) {m : Message}
    {raftLog : RaftLog} (ok : MsgOK voters s m) (kind : m.type = .msgHeartbeat) (target : m.toId = n)
    (same : m.term = r.term) (done : r.raftLog.commitTo m.commit = .ok raftLog) :
    Sim voters s n { r with raftLog } := by
  obtain ⟨_, low, safe⟩ := ok.beat kind
  refine sim.commitTo (fun _ => ?_) done
  have agree := inv.now n
  rw [sim.term, sim.log, ← same] at agree
  rw [(agree.mono (target ▸ low)).1, ← same]
  exact safe

/-- The leader takes note of an append response. -/
theorem Sim.ack (sim : Sim voters s n r) (inv : TermLog.Inv Entry.term voters s) {m : Message}
    {p : Progress} (ok : MsgOK voters s m) (role : r.state = .leader) (kind : m.type = .msgAppResp)
    (same : m.term = r.term) (tracked : r.trk.progress m.fromId = some p)
    (backs : m.reject = true → 1 < p.nextIndex) :
    Sim voters s n (r.setProgress m.fromId (ackedProgress p m)) := by
  have old := sim.next role _ p tracked
  have changed : ∀ q p', (r.setProgress m.fromId (ackedProgress p m)).trk.progress q = some p' →
      q = m.fromId ∧ p' = ackedProgress p m ∨ r.trk.progress q = some p' := by
    intro q p' here
    by_cases self : q = m.fromId
    · subst self
      exact .inl ⟨rfl, by simpa [Raft.setProgress, ProgressTracker.setProgress, eq_comm] using here⟩
    · exact .inr (by simpa [Raft.setProgress, ProgressTracker.setProgress, self] using here)
  exact { sim with
    acked := by
      intro _ q p' here
      rcases changed q p' here with ⟨rfl, rfl⟩ | there
      · unfold ackedProgress
        split
        · exact sim.acked role _ p tracked
        · rename_i yes
          exact same ▸ ok.ack kind (by simpa using yes)
      · exact sim.acked role q p' there
    next := by
      intro _ q p' here
      rcases changed q p' here with ⟨rfl, rfl⟩ | there
      · unfold ackedProgress
        split
        · rename_i no
          have := backs no
          simp only [decr_pos _ old.1]
          show 0 < p.nextIndex - 1 ∧ p.nextIndex - 1 ≤ r.raftLog.view.length + 1
          omega
        · rename_i yes
          have acked := ok.ack kind (by simpa using yes)
          have bound := inv.ackedBound m.fromId m.term
          rw [same, (sim.leads role).2] at bound
          rw [same] at acked
          show 0 < m.index + 1 ∧ m.index + 1 ≤ r.raftLog.view.length + 1
          omega
      · exact sim.next role q p' there }

/-- What a leader commits was acknowledged by a majority in its own term. -/
theorem Sim.chosen (sim : Sim voters s n r) (inv : TermLog.Inv Entry.term voters s)
    (role : r.state = .leader) (positive : 0 < r.trk.committed)
    (current : termAt r.raftLog.view r.trk.committed = some r.term) :
    TermLog.Chosen voters s r.term r.trk.committed := by
  obtain ⟨_, own⟩ := sim.leads role
  rw [termAt_pos positive] at current
  obtain ⟨e, here, term⟩ := Option.map_eq_some_iff.mp current
  have inside := (List.getElem?_eq_some_iff.mp here).1
  rw [← own] at here inside
  refine ⟨?_, by omega, ?_⟩
  · by_contra below
    have := (inv.own _ _ e here).2 (by omega)
    omega
  · have most := MajorityConfig.committedIndex_acked sim.nonempty (show 0 < _ from positive)
    refine ((Majority.perm sim.electorate).mp most).mono (fun q _ reached => ?_)
    cases tracked : r.trk.progress q with
    | none =>
      simp only [tracked, Option.map_none, Option.getD_none] at reached
      have positive' : 0 < r.trk.voters.committedIndex _ := positive
      omega
    | some p =>
      simp only [tracked, Option.map_some, Option.getD_some] at reached
      exact le_trans reached (sim.acked role q p tracked)

theorem Sim.commit (sim : Sim voters s n r) (inv : TermLog.Inv Entry.term voters s) {raftLog : RaftLog}
    (role : r.state = .leader) (current : r.raftLog.matchTerm r.trk.committed r.term = .ok true)
    (done : r.raftLog.commitTo r.trk.committed = .ok raftLog) : Sim voters s n { r with raftLog } := by
  refine sim.commitTo (fun bound => ?_) done
  rcases Nat.eq_zero_or_pos r.trk.committed with zero | positive
  · rw [zero]; exact .inl rfl
  rw [sim.layered.matchTerm bound] at current
  have chosen := sim.chosen inv role positive (by simpa using current)
  refine .inr ⟨_, _, le_rfl, chosen, by simp, ?_⟩
  rw [(sim.leads role).2]
  exact List.take_prefix _ _

/-- What a call of `Step` may rely on. -/
structure Sound (voters : List Nat) (s : History) (n : Nat) (m : Message) : Prop where
  ok : MsgOK voters s m
  target : m.type = .msgHeartbeat ∨ m.type = .msgHeartbeatResp ∨ m.type = .msgVoteResp → m.toId = n

theorem Sim.emits (sim : Sim voters s n r) {m msg : Message} (sent : Emits m r msg) :
    MsgOK voters s msg := by
  cases sent with
  | idle _ idle => exact msgOK_of_silent (by simp [isSilent, idle])
  | forward role kind =>
    refine msgOK_of_silent ?_
    rcases kind with kind | kind | kind <;> simp [isSilent, kind]
  | vote pid last role peer id =>
    rw [sim.layered.lastEntryID] at id
    cases id
    refine ⟨by simp [voteRequest], by simp [voteRequest], by simp [voteRequest], by simp [voteRequest],
      fun _ => ?_, by simp [voteRequest], by simp [voteRequest], by simp [voteRequest]⟩
    refine ⟨by simpa [voteRequest, sim.id] using sim.nonzero, r.raftLog.view, ?_, rfl, rfl⟩
    simpa [voteRequest, sim.id] using (sim.stands role).1
  | snapshot target role behind =>
    exfalso
    rcases behind with ⟨p, tracked, _, missing⟩ | ⟨_, _, low⟩
    · obtain ⟨positive, bound⟩ := sim.next role target p tracked
      rw [decr_pos _ positive, sim.layered.getTerm (by omega)] at missing
      obtain ⟨t, found⟩ := termAt_isSome (L := r.raftLog.view) (i := p.nextIndex - 1) (by omega)
      rw [found] at missing
      cases missing
    · have := sim.layered.plain.firstIndex_le
      omega
  | heartbeat target pr ctx role other tracked origin =>
    obtain ⟨led, own⟩ := sim.leads role
    refine ⟨by simp [heartbeatMsg], by simp [heartbeatMsg], by simp [heartbeatMsg], fun _ => ?_,
      by simp [heartbeatMsg], by simp [heartbeatMsg], by simp [heartbeatMsg], fun _ => other.symm⟩
    refine ⟨by simpa [heartbeatMsg, sim.id] using led,
      (Nat.min_le_left _ _).trans (sim.acked role target pr tracked), ?_⟩
    simp only [heartbeatMsg, own]
    exact sim.safe.sub (List.take_prefix_take_left (Nat.min_le_right _ _))

theorem ToPeer.ne {m : Message} {target : Nat} (other : ToPeer m r target) (sim : Sim voters s n r)
    (sound : Sound voters s n m) : r.id ≠ target := by
  rcases other with other | ⟨kind, rfl⟩
  · exact other.symm
  · have apart := sound.ok.apart (.inr (.inr kind))
    rw [sound.target (.inr (.inl kind))] at apart
    rw [sim.id]
    exact apart.symm

/-- The append that a leader builds from its log. -/
theorem Sim.resends (sim : Sim voters s n r) {target prevTerm : Nat} {p : Progress}
    {entries : List Entry} (role : r.state = .leader) (other : r.id ≠ target)
    (tracked : r.trk.progress target = some p)
    (prev : r.raftLog.getTerm (decr p.nextIndex) = .ok (some prevTerm))
    (slice : r.raftLog.slice p.nextIndex (r.raftLog.lastIndex + 1) = .ok entries) :
    MsgOK voters s (r.appendMsg target p.nextIndex prevTerm entries) ∧
      p.nextIndex - 1 + entries.length = r.raftLog.view.length := by
  obtain ⟨led, own⟩ := sim.leads role
  obtain ⟨positive, bound⟩ := sim.next role target p tracked
  have last := sim.layered.lastIndex
  have committed := sim.layered.committed
  rw [decr_pos _ positive, sim.layered.getTerm (by omega)] at prev
  rw [sim.layered.slice positive (by omega) (by omega), last, Nat.add_sub_cancel,
    List.take_of_length_le le_rfl] at slice
  have whole : entries = r.raftLog.view.drop (p.nextIndex - 1) := by cases slice; rfl
  have length : p.nextIndex - 1 + entries.length = r.raftLog.view.length := by
    rw [whole, List.length_drop]; omega
  refine ⟨⟨fun _ => ?_, by simp [appendMsg], by simp [appendMsg], by simp [appendMsg], by simp [appendMsg],
    by simp [appendMsg], by simp [appendMsg], fun _ => other⟩, length⟩
  simp only [appendMsg, decr_pos _ positive]
  refine ⟨?_, ?_, ?_, ?_, ?_, ?_, ?_⟩
  · simpa [sim.id] using led
  · simp only [own]; omega
  · simp only [own]
    rw [List.take_of_length_le (by simp; omega), whole]
  · show IndexedFrom (p.nextIndex - 1 + 1) entries
    rw [whole, Nat.add_comm]
    exact sim.layered.indexed.drop _
  · simp only [own]
    cases found : termAt r.raftLog.view (p.nextIndex - 1) with
    | none => rw [found] at prev; cases prev
    | some t => rw [found] at prev; cases prev; rfl
  · show r.raftLog.committed ≤ p.nextIndex - 1 + entries.length
    omega
  · simp only [own]; exact sim.safe

theorem Heard.same {r0 : Raft} {m : Message} (heard : Heard r0 m r) (current : Current r0 m)
    (kind : m.type = .msgApp ∨ m.type = .msgHeartbeat) (bound : m.term ≤ r.term) : m.term = r.term := by
  rcases heard.term with same | ⟨role, same⟩
  · exact same.symm
  · have := current (.inl ⟨kind, by simp [role]⟩)
    omega

/-- Every act of a tame call is matched in the history. -/
theorem Sim.act (sim : Sim voters s n r) (inv : TermLog.Inv Entry.term voters s) {lent : Option Nat}
    {r0 : Raft} {m : Message} (sound : Sound voters s n m) (tame : Tame lent r0 m) (act : Act r0 m r r') :
    (∃ s', TermLog.Moves Entry.term voters n s s' ∧ Sim voters s' n r') ∧
      Memory lent r.raftLog r'.raftLog := by
  have stay : ∀ {r'}, Sim voters s n r' → r'.raftLog = r.raftLog →
      (∃ s', TermLog.Moves Entry.term voters n s s' ∧ Sim voters s' n r') ∧
        Memory lent r.raftLog r'.raftLog :=
    fun sim same => ⟨⟨s, .refl, sim⟩, .of_eq (by rw [same]) (by rw [same])⟩
  cases act with
  | soft same => exact stay (sim.soft same) same.raftLog
  | emit msg sent => exact stay (sim.enqueue (sim.emits sent)) (by simp)
  | resend target p prevTerm entries role other tracked why prev slice =>
    exact stay (sim.enqueue (sim.resends role (other.ne sim sound) tracked prev slice).1) (by simp)
  | follow later kind => exact ⟨sim.follow inv later _, .of_eq (by simp) (by simp)⟩
  | yield start role bound kind =>
    subst start
    have campaigning : r.state ≠ .leader := by rcases role with role | role <;> simp [role]
    have same : m.term = r.term := by
      rcases kind with kind | kind | kind
      · exact le_antisymm bound (tame.current (.inl ⟨.inl kind, campaigning⟩))
      · exact le_antisymm bound (tame.current (.inl ⟨.inr kind, campaigning⟩))
      · exact absurd kind sound.ok.noSnap
    rw [same]
    exact stay (sim.yield _) (by simp)
  | abdicate => exact stay (sim.yield _) (by simp)
  | preCampaign role =>
    exact stay (sim.still ⟨rfl, rfl, rfl, rfl, rfl, .inr (.inl rfl)⟩ (fun _ inside => .inl inside)) rfl
  | candidacy role =>
    exact ⟨sim.candidacy inv, .of_eq (by simp [becomeCandidate, Raft.recordVote])
      (by simp [becomeCandidate, Raft.recordVote])⟩
  | tally role kind fresh bound =>
    refine stay (sim.tally (fun candidate yes => ?_)) rfl
    have resp : m.type = .msgVoteResp := by simpa [voteRespType, candidate] using kind
    have vote := sound.ok.grant resp (by simpa using yes)
    rw [sound.target (.inr (.inr resp)), le_antisymm (bound resp) fresh] at vote
    exact vote
  | lead role won taken appended =>
    have took := takeLead_spec taken
    obtain ⟨s1, moves, led⟩ := sim.takeLead inv role won took
    obtain ⟨⟨s2, moves', sim'⟩, memory⟩ := led.appendEntry (inv.moves moves).1 took.state appended lent
    exact ⟨⟨s2, moves.trans moves', sim'⟩, took.raftLog ▸ memory⟩
  | propose data role appended => exact sim.appendEntry inv role appended lent
  | grant kind granted bound =>
    exact ⟨sim.grant inv sound.ok kind granted bound, .of_eq (by simp) (by simp)⟩
  | accept appended committed heard role kind bound matched append commit =>
    have same := heard.same tame.current (.inl kind) bound
    have fits := tame.fits kind heard.heeds (by rw [← heard.raftLog, RaftLog.agrees, matched])
    rw [← heard.raftLog] at fits
    rw [enqueue_raftLog]
    exact sim.accept inv (sound.ok.app kind) same role fits matched append commit
  | refuse heard role kind bound unmatched =>
    have same := heard.same tame.current (.inl kind) bound
    refine stay (sim.enqueue ⟨by simp [refusal], fun _ => ?_, by simp [refusal], by simp [refusal],
      by simp [refusal], by simp [refusal], by simp [refusal], by simp [refusal]⟩) (by simp)
    refine ⟨?_, by simp [refusal, sim.id, sim.term]⟩
    simpa [refusal, ← same] using (sound.ok.app kind).leads
  | beat raftLog heard role kind bound committed =>
    have same := heard.same tame.current (.inr kind) bound
    have moved := sim.beat inv sound.ok kind (sound.target (.inl kind)) same committed
    have apart := sound.ok.apart (.inr (.inl kind))
    rw [sound.target (.inl kind)] at apart
    rw [enqueue_raftLog]
    refine ⟨⟨s, .refl, moved.enqueue ⟨by simp, by simp, by simp, by simp, by simp, by simp, by simp,
      fun _ => ?_⟩⟩, commitTo_memory committed⟩
    simpa [sim.id] using apart.symm
  | restore snap storage heard role kind => exact absurd kind sound.ok.noSnap
  | ack p role kind bound tracked start =>
    obtain ⟨leader0, term0, p0, tracked0, next0⟩ := start
    have current := tame.current (.inr ⟨kind, leader0⟩)
    refine stay (sim.ack inv sound.ok role kind (by omega) tracked (fun no => ?_)) rfl
    rw [← next0]
    exact tame.backs ⟨kind, leader0, no⟩ p0 tracked0
  | commit raftLog role current committed =>
    exact ⟨⟨s, .refl, sim.commit inv role current committed⟩, commitTo_memory committed⟩
  | drain role => exact stay ((sim.reads r.readOnly [] r.readStates).answerAll _) rfl
  | readSingle role kind single => exact stay (sim.answerAll _) rfl
  | queueRead start role kind current => exact stay (sim.reads _ r.pendingReadIndexRequests r.readStates) rfl
  | holdRead start role kind current => exact stay (sim.reads r.readOnly _ r.readStates) rfl
  | ackRead role kind bound context => exact stay (sim.reads _ r.pendingReadIndexRequests r.readStates) rfl
  | release readOnly rss role kind bound context won advanced =>
    exact stay ((sim.reads readOnly r.pendingReadIndexRequests r.readStates).answerAll _) rfl
  | noteRead role kind => exact stay (sim.reads r.readOnly r.pendingReadIndexRequests _) rfl

theorem Sound.ext (inv : TermLog.Inv Entry.term voters s) (ext : TermLog.Ext s s') {m : Message}
    (sound : Sound voters s n m) : Sound voters s' n m :=
  ⟨sound.ok.ext inv ext, sound.target⟩

/-- The messages that the calls of some work handle are fine, its own timer messages included. -/
theorem fine_call {r0 : Raft} {m : Message} (inv : TermLog.Inv Entry.term voters s) (ext : TermLog.Ext s s')
    {lent : Option Nat} {calls : List (Raft × Message)}
    (each : ∀ call ∈ calls, Sound voters s n call.2 ∧ Tame lent call.1 call.2)
    (call : (r0, m) ∈ calls ∨ isTimer m) : Sound voters s' n m ∧ Tame lent r0 m := by
  rcases call with inside | ⟨_, kind⟩
  · obtain ⟨sound, tame⟩ := each (r0, m) inside
    exact ⟨sound.ext inv ext, tame⟩
  · refine ⟨⟨msgOK_of_silent ?_, ?_⟩, ?_, ?_, ?_⟩
    · rcases kind with kind | kind | kind <;> simp [isSilent, kind]
    · rcases kind with kind | kind | kind <;> simp [kind]
    · rcases kind with kind | kind | kind <;> simp [Current, kind]
    · rcases kind with kind | kind | kind <;> simp [kind]
    · rcases kind with kind | kind | kind <;> simp [Raft.Backs, kind]

/-- Work made of tame calls is matched in the history. -/
theorem Sim.works (sim : Sim voters s n r) (inv : TermLog.Inv Entry.term voters s) {lent : Option Nat}
    {calls : List (Raft × Message)}
    (each : ∀ call ∈ calls, Sound voters s n call.2 ∧ Tame lent call.1 call.2)
    (works : Works calls r r') :
    (∃ s', TermLog.Moves Entry.term voters n s s' ∧ Sim voters s' n r') ∧
      Memory lent r.raftLog r'.raftLog := by
  refine works.keeps (P := fun r' => (∃ s', TermLog.Moves Entry.term voters n s s' ∧ Sim voters s' n r') ∧
    Memory lent r.raftLog r'.raftLog) ?_ ?_ ⟨⟨s, .refl, sim⟩, .of_eq rfl rfl⟩
  · rintro r1 r2 ⟨⟨s', moves, sim'⟩, memory⟩ same
    exact ⟨⟨s', moves, sim'.soft same⟩, same.raftLog ▸ memory⟩
  · rintro r0 m r1 r2 call - ⟨⟨s', moves, sim'⟩, memory⟩ act
    obtain ⟨inv', ext, _⟩ := inv.moves moves
    obtain ⟨sound, tame⟩ := fine_call inv ext each call
    obtain ⟨⟨s'', moves', sim''⟩, memory'⟩ := sim'.act inv' sound tame act
    exact ⟨⟨s'', moves.trans moves', sim''⟩, memory.trans memory'⟩

end Keep

end Raft

end Kvgo

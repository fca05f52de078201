import Kvgo.Raft.Acts

/-! The commit index a leader derives from append responses. -/

namespace Kvgo

namespace Raft

def stored (r : Raft) : Set Nat := r.trk.voters.acks (fun id => (r.trk.progress id).map Progress.matchIndex)

/-- What raises the commit index of a leader: the quorum's index, if the entry there is
of the current term. -/
structure Commits (r r' : Raft) : Prop where
  value : r'.raftLog.committed = r'.trk.committed
  inside : r'.raftLog.committed ≤ r'.raftLog.lastIndex
  current : r'.raftLog.getTerm r'.raftLog.committed = .ok (some r'.term)
  term : r'.term = r.term
  voters : r'.trk.voters = r.trk.voters

theorem matchTerm_eq_true {l : RaftLog} {i term : Nat} (ok : l.matchTerm i term = .ok true) :
    l.getTerm i = .ok (some term) := by
  obtain ⟨t, found, same⟩ := Outcome.bind_eq_ok.mp ok
  simp only [Except.ok.injEq, beq_iff_eq] at same
  rw [found, same]

theorem stepAppResp_commits {r r' : Raft} {m : Message} {e : Option StepError}
    (ok : r.stepAppResp m = .ok (r', e)) (raised : r.raftLog.committed < r'.raftLog.committed) :
    Commits r r' := by
  unfold stepAppResp at ok
  split at ok
  · cases ok
    omega
  rename_i prs tracked
  obtain ⟨r1, snapped, ok⟩ := Outcome.bind_eq_ok.mp ok
  obtain ⟨r2, finished, ok⟩ := Outcome.bind_eq_ok.mp ok
  obtain ⟨⟨r3, advanced⟩, committed, last⟩ := Outcome.bind_eq_ok.mp ok
  -- what comes before the commit only queues messages
  have kept1 : Kept (r.setProgress m.fromId (r.heardFrom m prs)) r1 := by
    unfold sendSnapshotOnReject at snapped
    simp only at snapped
    split at snapped
    · rw [send_eq_ok snapped]
      exact kept_enqueue _ _
    · cases snapped
      exact .refl _
  obtain ⟨_, kept2⟩ : Acts r m _ r2 ∧ Kept _ r2 := finishTransfer_acts finished
  have log : r2.raftLog = r.raftLog := kept2.raftLog.trans kept1.raftLog
  have term : r2.term = r.term := kept2.term.trans kept1.term
  have voters : r2.trk.voters = r.trk.voters := by
    rw [kept2.trk]
    show r1.trk.voters = _
    rw [kept1.trk]
    rfl
  rcases maybeCommit_cases committed with ⟨rfl, rfl⟩ | ⟨rfl, current, raftLog, moved, rfl⟩
  · cases last
    rw [log] at raised
    omega
  simp only [done, drain_eq, if_true] at last
  cases last
  change r.raftLog.committed < raftLog.committed at raised
  rcases RaftLog.commitTo_eq_ok moved with ⟨_, rfl⟩ | ⟨_, bound, rfl⟩
  · rw [log] at raised
    omega
  · exact ⟨rfl, bound, matchTerm_eq_true current, term, voters⟩

theorem step_appResp {r r' : Raft} {m : Message} {e : Option StepError} (role : r.state = .leader)
    (kind : m.type = .msgAppResp) (ok : r.step m = .ok (r', e))
    (raised : r.raftLog.committed < r'.raftLog.committed) : r.stepAppResp m = .ok (r', e) := by
  obtain ⟨r1, checked, ok⟩ := Outcome.bind_eq_ok.mp ok
  rcases (checkTerm_acts checked).2 with other | ⟨same | ⟨_, later⟩, _⟩
  · rw [kind] at other
    cases other
  · rw [same] at ok
    simpa [stepType, kind, stepRole, role, stepLeader] using ok
  · have follower : r1.state = .follower := by rw [later, becomeFollower_state]
    simp only [stepType, kind, stepRole, follower, stepFollower] at ok
    cases ok
    rw [later, becomeFollower_raftLog] at raised
    omega

end Raft

/-- The commit index is the greatest index that a majority has acked, in whatever order
the voters are walked, and an append response raises a leader's commit index only to it,
within the log and to an entry of the current term. -/
theorem commit_index_quorum_maximum :
    (∀ (c : MajorityConfig) (ackedIndex : Nat → Option Nat), c.size ≠ 0 →
      IsGreatest {i | Majority c.ids (fun id => i ≤ (ackedIndex id).getD 0)} (c.committedIndex ackedIndex) ∧
        ∀ c' : MajorityConfig, c.ids.Perm c'.ids → c'.committedIndex ackedIndex = c.committedIndex ackedIndex) ∧
    ∀ (r r' : Raft) (m : Message) (e : Option StepError), r.trk.voters.size ≠ 0 → r.state = .leader →
      m.type = .msgAppResp → r.step m = .ok (r', e) → r.raftLog.committed < r'.raftLog.committed →
        r'.raftLog.committed = r'.trk.committed ∧ IsGreatest r'.stored r'.raftLog.committed ∧
          r'.raftLog.committed ≤ r'.raftLog.lastIndex ∧
          r'.raftLog.getTerm r'.raftLog.committed = .ok (some r.term) := by
  constructor
  · intro c ackedIndex voters
    exact ⟨MajorityConfig.committedIndex_greatest ackedIndex voters,
      fun c' same => (MajorityConfig.committedIndex_perm ackedIndex same).symm⟩
  · intro r r' m e voters role kind ok raised
    have commits := Raft.stepAppResp_commits (Raft.step_appResp role kind ok raised) raised
    have greatest : IsGreatest r'.stored r'.trk.committed := by
      apply MajorityConfig.committedIndex_greatest
      rw [commits.voters]
      exact voters
    refine ⟨commits.value, commits.value ▸ greatest, commits.inside, ?_⟩
    rw [← commits.term]
    exact commits.current

def Raft.aloneConfig : Config where
  id := 1
  peers := []
  storage := {}
  applied := 0
  electionTick := 2
  heartbeatTick := 1
  rng := fun _ => 0

/-- Three voters of which one is missing, and a node alone that acks its own entry. -/
theorem aloneLeader_commits :
    IsGreatest {i | Majority (buildMajorityConfig 1 [2, 3]).ids
      (fun id => i ≤ ((if id = 1 then some 5 else if id = 2 then some 3 else none).getD 0))} 3 ∧
    ∃ r r' : Raft, (do (← Raft.newRaft Raft.aloneConfig).stepQuietly { type := .msgHup }) = .ok r ∧
      r.step { type := .msgAppResp, fromId := 1, toId := 1, term := 1, index := 1 } = .ok (r', none) ∧
      r.raftLog.committed = 0 ∧ r'.raftLog.committed = 1 ∧ IsGreatest r'.stored 1 := by
  constructor
  · exact (commit_index_quorum_maximum.1 (buildMajorityConfig 1 [2, 3])
      (fun id => if id = 1 then some 5 else if id = 2 then some 3 else none) (by decide)).1
  · obtain ⟨r, r', made, acked, voters, role, zero, one⟩ : ∃ r r' : Raft,
        (do (← Raft.newRaft Raft.aloneConfig).stepQuietly { type := .msgHup }) = .ok r ∧
        r.step { type := .msgAppResp, fromId := 1, toId := 1, term := 1, index := 1 } = .ok (r', none) ∧
        r.trk.voters.size = 1 ∧ r.state = .leader ∧ r.raftLog.committed = 0 ∧ r'.raftLog.committed = 1 :=
      ⟨_, _, rfl, rfl, rfl, rfl, rfl, rfl⟩
    have greatest := (commit_index_quorum_maximum.2 r r' _ none (by omega) role rfl acked (by omega)).2.1
    rw [one] at greatest
    exact ⟨r, r', made, acked, zero, one, greatest⟩

end Kvgo

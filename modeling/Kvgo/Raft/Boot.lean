import Kvgo.Raft.Steps

/-! The state a process starts in, new or restarted on what it saved. -/

namespace Kvgo

namespace ProgressTracker

theorem foldl_initProgress_voters (peers : List Nat) (t : ProgressTracker) :
    (peers.foldl (fun t pid => t.initProgress pid 0 1) t).voters = t.voters := by
  induction peers generalizing t with
  | nil => rfl
  | cons pid peers ih => rw [List.foldl_cons, ih]; rfl

theorem foldl_initProgress_tracked (peers : List Nat) (t : ProgressTracker) (id : Nat) :
    ((peers.foldl (fun t pid => t.initProgress pid 0 1) t).progress id).isSome =
      (decide (id ∈ peers) || (t.progress id).isSome) := by
  induction peers generalizing t with
  | nil => simp
  | cons pid peers ih =>
    rw [List.foldl_cons, ih]
    by_cases same : id = pid <;> simp [initProgress, same]

theorem foldl_initProgress_ids (peers : List Nat) (t : ProgressTracker) (id : Nat) :
    id ∈ (peers.foldl (fun t pid => t.initProgress pid 0 1) t).ids ↔ id ∈ peers ∨ id ∈ t.ids := by
  induction peers generalizing t with
  | nil => simp
  | cons pid peers ih =>
    rw [List.foldl_cons, ih]
    simp only [initProgress, List.mem_cons]
    split
    · rename_i known
      constructor
      · tauto
      · rintro ((rfl | later) | old) <;> tauto
    · simp only [List.mem_append, List.mem_singleton]; tauto

end ProgressTracker

namespace Raft

/-- What `newRaft` builds from a storage. -/
structure Fresh (cfg : Config) (r : Raft) : Prop where
  id : r.id = cfg.id
  term : r.term = cfg.storage.hd.term
  votedFor : r.votedFor = cfg.storage.hd.votedFor
  state : r.state = .follower
  messages : r.messages = []
  msgsAfterAppend : r.msgsAfterAppend = []
  readStates : r.readStates = []
  readOnly : r.readOnly = ReadOnly.newReadOnly
  pendingReadIndexRequests : r.pendingReadIndexRequests = []
  voters : r.trk.voters = buildMajorityConfig cfg.id cfg.peers
  tracked : ∀ id, (r.trk.progress id).isSome = (decide (id ∈ cfg.peers) || decide (id = cfg.id))
  ids : ∀ id, id ∈ r.trk.ids ↔ id ∈ cfg.peers ∨ id = cfg.id
  peers : r.peers = cfg.peers
  storage : r.raftLog.storage = cfg.storage
  unstable : r.raftLog.unstable = { offset := cfg.storage.lastIndex + 1 }
  committed : r.raftLog.committed = cfg.storage.hd.committedIndex ∨
    r.raftLog.committed = cfg.storage.firstIndex - 1
  applied : r.raftLog.applied = cfg.applied ∨ r.raftLog.applied = cfg.storage.firstIndex - 1

theorem loadHardState_eq (cfg : Config) (hs : HardState) : ∃ committed,
    (committed = hs.committedIndex ∨ committed = cfg.storage.firstIndex - 1) ∧
    (blank cfg).loadHardState hs = { blank cfg with
      term := hs.term
      votedFor := hs.votedFor
      raftLog := { RaftLog.newRaftLog cfg.storage with committed } } := by
  unfold loadHardState
  split
  · rename_i empty
    simp only [isEmptyHardState, Bool.and_eq_true, beq_iff_eq] at empty
    exact ⟨_, .inr rfl, by rw [empty.1.1, empty.1.2]; rfl⟩
  · exact ⟨_, .inl rfl, rfl⟩

theorem loadApplied_eq (r : Raft) (position firstIndex : Nat) : ∃ applied,
    (applied = position ∨ applied = firstIndex - 1 ∨ applied = r.raftLog.applied) ∧
    r.loadApplied position firstIndex = { r with raftLog := { r.raftLog with applied } } := by
  unfold loadApplied
  split
  · exact ⟨position, .inl rfl, rfl⟩
  split
  · exact ⟨firstIndex - 1, .inr (.inl rfl), rfl⟩
  · exact ⟨_, .inr (.inr rfl), rfl⟩

theorem newRaft_fresh {cfg : Config} {r : Raft} (ok : newRaft cfg = .ok r) : Fresh cfg r := by
  obtain ⟨committed, commitCases, hard⟩ := loadHardState_eq cfg cfg.storage.hd
  obtain ⟨applied, applyCases, position⟩ :=
    loadApplied_eq ((blank cfg).loadHardState cfg.storage.hd) cfg.applied cfg.storage.firstIndex
  simp only [newRaft] at ok
  split at ok
  · cases ok
  split at ok
  · cases ok
  split at ok
  · cases ok
  cases ok
  rw [position]
  simp only [hard] at applyCases ⊢
  constructor
  · exact becomeFollower_id _ _ _
  · exact becomeFollower_term _ _ _
  · rw [becomeFollower_votedFor, if_neg (by simp)]
  · exact becomeFollower_state _ _ _
  · exact becomeFollower_messages _ _ _
  · exact becomeFollower_msgsAfterAppend _ _ _
  · exact becomeFollower_readStates _ _ _
  · rfl
  · rfl
  · rw [becomeFollower_trk]
    exact ProgressTracker.foldl_initProgress_voters _ _
  · intro q
    rw [becomeFollower_trk]
    simp only [ProgressTracker.visit, ProgressTracker.resetVotes_progress, Option.isSome_map]
    rw [show (blank cfg).trk.progress q = _ from rfl]
    refine (ProgressTracker.foldl_initProgress_tracked _ _ _).trans ?_
    by_cases self : q = cfg.id <;> simp [ProgressTracker.newTracker, self]
  · intro q
    rw [becomeFollower_trk]
    refine (ProgressTracker.foldl_initProgress_ids _ _ _).trans ?_
    simp [ProgressTracker.newTracker]
  · exact becomeFollower_peers _ _ _
  · rw [becomeFollower_raftLog]; rfl
  · rw [becomeFollower_raftLog]; rfl
  · rw [becomeFollower_raftLog]; exact commitCases
  · rw [becomeFollower_raftLog]
    rcases applyCases with same | same | same
    · exact .inl same
    · exact .inr same
    · exact .inr same

end Raft

namespace Cluster

variable {cfg : ClusterConfig} {id : Nat} {storage : MemStorage} {rng : Nat → Nat}

theorem boot_up {node : Node} {phase : Phase} (up : boot cfg id storage rng = .up node phase) :
    phase = .idle ∧ ∃ r, Raft.Fresh (nodeConfig cfg id storage rng) r ∧
      ({ r } : Node).loopTop = .ok node := by
  unfold boot at up
  split at up
  · cases up
  rename_i start made
  split at up
  · cases up
  rename_i node' top
  cases up
  obtain ⟨r, built, same⟩ := Outcome.bind_eq_ok.mp made
  cases same
  exact ⟨rfl, r, Raft.newRaft_fresh built, top⟩

theorem boot_down {cause : Option Panic} {storage' : MemStorage}
    (down : boot cfg id storage rng = .down cause storage') : storage' = storage := by
  unfold boot at down
  split at down
  · cases down; rfl
  split at down
  · cases down; rfl
  · cases down

theorem buildMajorityConfig_perm (cfg : ClusterConfig) (voter : id ∈ cfg.voters) :
    (buildMajorityConfig id (cfg.voters.filter (fun v => decide (v ≠ id)))).ids.Perm cfg.voters := by
  refine (List.perm_ext_iff_of_nodup (List.nodup_dedup _) cfg.nodup).mpr (fun a => ?_)
  simp only [List.mem_dedup, List.mem_cons, List.mem_filter, decide_eq_true_eq]
  by_cases same : a = id
  · simp [same, voter]
  · simp [same]

end Cluster

end Kvgo

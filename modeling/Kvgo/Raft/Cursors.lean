import Kvgo.Raft.Member

/-! The cursors of the log over whole runs of a process, and the entries the process
hands out. -/

namespace Kvgo

instance (first : Nat) (L : List Entry) : Decidable (IndexedFrom first L) :=
  decidable_of_iff (∀ p ∈ L.zipIdx, p.1.index = first + p.2) (by
    constructor
    · intro all i e here
      exact all (e, i) (List.mk_mem_zipIdx_iff_getElem?.mpr here)
    · intro all p inside
      exact all p.2 p.1 (List.mk_mem_zipIdx_iff_getElem?.mp inside))

instance (m : Message) : Decidable (RaftLog.Consecutive m) := by
  unfold RaftLog.Consecutive
  infer_instance

instance (m : Message) : Decidable (Node.Plain m) := by
  unfold Node.Plain
  infer_instance

/-! The log of a new node. -/

structure MemStorage.Sound (s : MemStorage) : Prop where
  stored : s.Stored (s.snap.lastIncludedIndex + 1)
  committed : s.hd.committedIndex ≤ s.lastIndex
  boundary : isEmptyHardState (some s.hd) = true ∨ s.snap.lastIncludedIndex ≤ s.hd.committedIndex

theorem sound_empty : MemStorage.Sound {} :=
  ⟨MemStorage.stored_empty, by decide, by decide⟩

theorem MemStorage.Sound.firstIndex {s : MemStorage} (sound : s.Sound) :
    s.firstIndex = s.snap.lastIncludedIndex + 1 ∨
      s.firstIndex = 0 ∧ s.snap.lastIncludedIndex = 0 := by
  by_cases none : s.entries = []
  · by_cases zero : s.snap.lastIncludedIndex = 0
    · exact .inr ⟨by simp [MemStorage.firstIndex, none, zero], zero⟩
    · exact .inl (by simp [MemStorage.firstIndex, none, zero])
  · exact .inl (sound.stored.firstIndex none)

/-- The log that `newRaft` sets up. -/
theorem Raft.newRaft_log {cfg : Config} {r : Raft} (ok : Raft.newRaft cfg = .ok r) :
    r.raftLog = {
      storage := cfg.storage
      unstable := { offset := cfg.storage.lastIndex + 1 }
      committed := if isEmptyHardState (some cfg.storage.hd) then cfg.storage.firstIndex - 1
        else cfg.storage.hd.committedIndex
      applied := if 0 < cfg.applied then cfg.applied else cfg.storage.firstIndex - 1 } ∧
    cfg.applied ≤ r.raftLog.committed ∧
    ¬ (0 < cfg.applied ∧ 0 < cfg.storage.firstIndex ∧ cfg.applied < cfg.storage.firstIndex - 1) := by
  simp only [newRaft] at ok
  split at ok
  · cases ok
  split at ok
  · cases ok
  rename_i bound
  split at ok
  · cases ok
  rename_i first
  cases ok
  rw [becomeFollower_raftLog]
  have committed : ((blank cfg).loadHardState cfg.storage.hd).raftLog = { RaftLog.newRaftLog cfg.storage with
      committed := if isEmptyHardState (some cfg.storage.hd) then cfg.storage.firstIndex - 1
        else cfg.storage.hd.committedIndex } := by
    unfold loadHardState
    split <;> rfl
  refine ⟨?_, ?_, first⟩
  · unfold loadApplied
    split
    · rw [committed]; rfl
    split
    · rw [committed]; rfl
    · rw [committed]; rfl
  · unfold loadApplied
    split
    · exact Nat.not_lt.mp bound
    split
    · exact Nat.not_lt.mp bound
    · exact Nat.not_lt.mp bound

theorem Raft.newRaft_shape {cfg : Config} {r : Raft} (sound : cfg.storage.Sound)
    (ok : Raft.newRaft cfg = .ok r) :
    RaftLog.Shape r.raftLog ∧ RaftLog.Tight r.raftLog ∧
      cfg.storage.snap.lastIncludedIndex ≤ r.raftLog.applied := by
  obtain ⟨log, bound, first⟩ := newRaft_log ok
  have low := sound.stored.boundary_le
  have high := sound.committed
  have start := sound.firstIndex
  have boundary := sound.boundary
  rw [log] at bound ⊢
  have last : (RaftLog.mk cfg.storage { offset := cfg.storage.lastIndex + 1 }
      (if isEmptyHardState (some cfg.storage.hd) then cfg.storage.firstIndex - 1
        else cfg.storage.hd.committedIndex)
      (if 0 < cfg.applied then cfg.applied else cfg.storage.firstIndex - 1)).lastIndex =
        cfg.storage.lastIndex := RaftLog.lastIndex_nil rfl
  refine ⟨⟨⟨_, sound.stored⟩, ⟨Nat.succ_pos _, fun k e here => by simp [Unstable.backing] at here⟩,
    Nat.le_refl _, ?_, ?_, ?_⟩, fun _ => rfl, ?_⟩
  · dsimp only
    split
    · omega
    · rename_i some
      exact boundary.resolve_left some
  · dsimp only at bound ⊢
    split
    · exact bound
    · split
      · omega
      · rename_i some
        have := boundary.resolve_left some
        omega
  · rw [last]
    dsimp only
    split
    · omega
    · exact high
  · dsimp only
    split <;> omega

theorem Member.start_node_kept {cfg : Config} {r : Raft} (sound : cfg.storage.Sound)
    (made : Raft.newRaft cfg = .ok r) : Node.Kept ({ r } : Node) .idle := by
  have storage : r.raftLog.storage = cfg.storage := (Raft.newRaft_fresh made).storage
  refine ⟨⟨(Raft.newRaft_shape sound made).1, ?_, by simp, by simp, ?_⟩, .inl ⟨rfl, rfl⟩, by simp, fun _ => ?_⟩
  · show ∀ msg ∈ r.msgsAfterAppend, _
    rw [(Raft.newRaft_fresh made).msgsAfterAppend]
    simp
  · show r.raftLog.storage.hd.committedIndex ≤ _
    rw [storage, (Raft.newRaft_log made).1]
    dsimp only
    split
    · rename_i empty
      simp only [isEmptyHardState, Bool.and_eq_true, beq_iff_eq] at empty
      omega
    · exact Nat.le_refl _
  · show r.raftLog.storage.hd.committedIndex ≤ r.raftLog.storage.lastIndex
    rw [storage]
    exact sound.committed

/-- The process right after `newRaft`. -/
theorem Member.start_kept {cfg : Config} (sound : cfg.storage.Sound) {node : Node} {phase : Phase}
    (up : (Member.start cfg).proc = .up node phase) :
    ∃ r, Raft.newRaft cfg = .ok r ∧ phase = .idle ∧ Node.Kept node .idle ∧
      Node.Grows { r } node 0 ∧ ({ r } : Node).loopTop = .ok node := by
  unfold Member.start at up
  dsimp only at up
  split at up
  · cases up
  rename_i fresh made
  split at up
  · cases up
  rename_i node' top
  cases up
  obtain ⟨r, built, same⟩ := Outcome.bind_eq_ok.mp made
  cases same
  obtain ⟨kept, grows⟩ := (start_node_kept sound built).top top
  exact ⟨r, built, rfl, kept, grows, top⟩

/-! One event. -/

namespace Raft

theorem handleSnapshot_cases {r r' : Raft} {m : Message} (ok : r.handleSnapshot m = .ok r') :
    r' = r ∨ ∃ snap storage, m.snapshot = some snap ∧
      r.raftLog.storage.applySnapshot snap = (storage, none) ∧
      r' = { r with raftLog := ({ r.raftLog with storage } : RaftLog).restore snap.lastIncludedIndex } := by
  unfold handleSnapshot at ok
  split at ok
  · cases ok
  rename_i snap carried
  split at ok
  · cases ok; exact .inl rfl
  · rename_i storage applied
    cases ok
    exact .inr ⟨snap, storage, carried, applied, rfl⟩

def Installed (l : RaftLog) (m : Message) (l' : RaftLog) : Prop :=
  ∃ snap storage, m.snapshot = some snap ∧ l.storage.applySnapshot snap = (storage, none) ∧
    l' = ({ l with storage } : RaftLog).restore snap.lastIncludedIndex

/-- A snapshot message is ignored or installed. -/
theorem step_snap {r r' : Raft} {m : Message} {e : Option StepError} (kind : m.type = .msgSnap)
    (ok : r.step m = .ok (r', e)) :
    r'.msgsAfterAppend = r.msgsAfterAppend ∧
      (r'.raftLog = r.raftLog ∨ r.heeds m = true ∧ Installed r.raftLog m r'.raftLog) := by
  obtain ⟨r1, checked, ok⟩ := Outcome.bind_eq_ok.mp ok
  have before : r1 = r ∨ r.term < m.term ∧ r1 = r.becomeFollower m.term m.fromId := by
    unfold checkTerm at checked
    simp only [kind, reduceCtorEq, or_self, and_false, if_false] at checked
    split at checked
    · cases checked; exact .inl rfl
    split at checked
    · rename_i later
      cases checked; exact .inr ⟨later, rfl⟩
    · cases checked; exact .inl rfl
  have same : r1.raftLog = r.raftLog ∧ r1.msgsAfterAppend = r.msgsAfterAppend ∧
      (r1.state ≠ .leader → r.heeds m = true) := by
    rcases before with rfl | ⟨later, rfl⟩
    · exact ⟨rfl, rfl, fun role => by simp [heeds, role]⟩
    · exact ⟨by simp, by simp, fun _ => by simp [heeds, later]⟩
  have install : ∀ r2 : Raft, r2.raftLog = r.raftLog → r2.msgsAfterAppend = r.msgsAfterAppend →
      r1.state ≠ .leader → r2.handleSnapshot m = .ok r' → r'.msgsAfterAppend = r.msgsAfterAppend ∧
      (r'.raftLog = r.raftLog ∨ r.heeds m = true ∧ Installed r.raftLog m r'.raftLog) := by
    intro r2 log after role installed
    rcases handleSnapshot_cases installed with rfl | ⟨snap, storage, carried, applied, rfl⟩
    · exact ⟨after, .inl log⟩
    · rw [log] at applied
      exact ⟨after, .inr ⟨same.2.2 role, snap, storage, carried, applied, by simp only [log]⟩⟩
  simp only [stepType, kind, stepRole] at ok
  cases role : r1.state with
  | follower =>
    simp only [role, stepFollower, kind] at ok
    exact install (r1.heed m) same.1 same.2.1 (by simp [role]) (done_eq_ok ok)
  | preCandidate =>
    simp only [role, stepCandidate, kind] at ok
    exact install _ (by simp [same.1]) (by simp [same.2.1]) (by simp [role]) (done_eq_ok ok)
  | candidate =>
    simp only [role, stepCandidate, kind] at ok
    exact install _ (by simp [same.1]) (by simp [same.2.1]) (by simp [role]) (done_eq_ok ok)
  | leader =>
    simp only [role, stepLeader, kind] at ok
    cases ok
    exact ⟨same.2.1, .inl same.1⟩

end Raft

theorem MemStorage.applySnapshot_spec {s s' : MemStorage} {snap : SnapshotMeta} {first : Nat}
    (stored : s.Stored first) (ok : s.applySnapshot snap = (s', none)) :
    s'.snap = snap ∧ s'.hd = s.hd ∧ s'.Stored (snap.lastIncludedIndex + 1) ∧
      (s.snap.lastIncludedIndex = 0 ∨ s.snap.lastIncludedIndex < snap.lastIncludedIndex) := by
  have low := stored.low
  unfold MemStorage.applySnapshot at ok
  split at ok
  · cases ok
  rename_i newer
  cases ok
  have order : first ≤ snap.lastIncludedIndex + 1 := by omega
  have kept := filterRetained_drop stored.indexed stored.positive snap.lastIncludedIndex
  refine ⟨rfl, rfl, ⟨Nat.succ_pos _, Nat.le_refl _, Nat.le_add_right _ _, ?_⟩, by omega⟩
  show IndexedFrom _ (filterRetainedEntries s.entries snap.lastIncludedIndex)
  rw [kept]
  have := stored.indexed.drop (snap.lastIncludedIndex + 1 - first)
  rwa [show first + (snap.lastIncludedIndex + 1 - first) = snap.lastIncludedIndex + 1 by omega] at this

/-- A snapshot that lies ahead of everything committed. -/
theorem Raft.Installed.shape {l l' : RaftLog} {m : Message} (good : RaftLog.Shape l)
    (installed : Installed l m l')
    (ahead : ∀ snap, m.snapshot = some snap → l.committed < snap.lastIncludedIndex) :
    RaftLog.Shape l' ∧ l.applied ≤ l'.applied ∧ l.committed < l'.committed ∧
      l'.storage.hd = l.storage.hd ∧ l'.committed ≤ l'.storage.lastIndex := by
  obtain ⟨snap, storage, carried, applied, rfl⟩ := installed
  obtain ⟨first, stored⟩ := good.stored
  obtain ⟨same, hd, new, _⟩ := MemStorage.applySnapshot_spec stored applied
  have above := ahead snap carried
  have order := good.order
  have last : (({ l with storage } : RaftLog).restore snap.lastIncludedIndex).lastIndex =
      storage.lastIndex := RaftLog.lastIndex_nil rfl
  have reach := new.boundary_le
  rw [same] at reach
  simp only [RaftLog.restore] at last ⊢
  refine ⟨⟨⟨_, new⟩, ⟨Nat.succ_pos _, fun k e here => by simp [Unstable.backing] at here⟩, ?_, ?_, ?_, ?_⟩,
    by omega, by omega, hd, by omega⟩
  · dsimp only; omega
  · dsimp only; rw [same]; omega
  · dsimp only; omega
  · rw [last]; dsimp only; omega

namespace Member

open Node

def cursors? (p : Member) : Option (Nat × Nat × Nat) :=
  match p.proc with
  | .up node _ => some (node.r.raftLog.applied, node.r.raftLog.committed, node.r.raftLog.lastIndex)
  | .down _ _ => none

def node? (p : Member) : Option Node :=
  match p.proc with
  | .up node _ => some node
  | .down _ _ => none

/-- A snapshot is installed only while no `Ready` is out and only ahead of the committed
entries. Appended entries are consecutive, as every node sends them. -/
def Careful (p : Member) : MemberEvent → Prop
  | .input (.step m) => RaftLog.Consecutive m ∧ ∀ node ∈ p.node?, ∀ snap ∈ m.snapshot,
      m.type = .msgSnap ∧ node.r.heeds m = true ∧
        (node.r.raftLog.storage.applySnapshot snap).2 = none →
          node.advancec = false ∧ node.r.raftLog.committed < snap.lastIncludedIndex
  | .compact index => ∀ node ∈ p.node?, index ≤ node.handed
  | _ => True

instance (p : Member) (e : MemberEvent) : Decidable (p.Careful e) := by
  unfold Careful
  split
  · infer_instance
  · infer_instance
  · infer_instance

theorem run_input {node node' : Node} {phase phase' : Phase} {arm : Node.Event} (kept : Kept node phase)
    (ordinary : ¬ (arm = .accept ∨ arm = .advance)) (plain : ∀ call ∈ node.stepCalls arm, Plain call.2)
    (up : Cluster.run node phase arm = .up node' phase') :
    phase' = phase ∧ ∃ mid, mid.loopTop = .ok node' ∧ Kept mid phase ∧ Grows node mid 0 ∧
      (mid.rd.committedEntries = node.rd.committedEntries ∧ mid.readyc = node.readyc) ∧
      RaftLog.Onward node.r.raftLog mid.r.raftLog := by
  have ran := Cluster.run_cases node phase arm
  rw [up] at ran
  cases ran with
  | ok mid _ selected top =>
    refine ⟨rfl, mid, top, ?_⟩
    cases selected with
    | idle => exact ⟨kept, ⟨Nat.le_refl _, Nat.le_refl _, rfl, fun tight => tight⟩, ⟨rfl, rfl⟩,
        .refl kept.steady.shape⟩
    | work r' _ works =>
      obtain ⟨onward, after⟩ := works_onward plain works kept.steady.shape kept.steady.after
      obtain ⟨kept', grows⟩ := kept.onward onward after
      refine ⟨kept', grows, ⟨withRaft_committedEntries node r', (withRaft_rest node r').2.2.2.1⟩, ?_⟩
      rw [(withRaft_rest node r').1]
      exact onward
    | accept kind => exact absurd (.inl kind) ordinary
    | advance _ kind => exact absurd (.inr kind) ordinary

theorem plain_calls {node : Node} {arm : Node.Event} (ordinary : ¬ (arm = .accept ∨ arm = .advance))
    (plain : ∀ m, arm = .step m → Plain m) : ∀ call ∈ node.stepCalls arm, Plain call.2 := by
  intro call inside
  cases arm with
  | step m =>
    simp only [stepCalls] at inside
    split at inside
    · cases inside
    · rw [List.mem_singleton.mp inside]
      exact plain m rfl
  | propose data =>
    rw [List.mem_singleton.mp inside]
    exact ⟨fun kind => (by cases kind), by simp⟩
  | campaign =>
    rw [List.mem_singleton.mp inside]
    exact ⟨fun kind => (by cases kind), by simp⟩
  | readIndex ctx =>
    rw [List.mem_singleton.mp inside]
    exact ⟨fun kind => (by cases kind), by simp⟩
  | tick => cases inside
  | accept => exact absurd (.inl rfl) ordinary
  | advance => exact absurd (.inr rfl) ordinary

theorem run_accept {node node' : Node} {phase' : Phase} (kept : Kept node .idle)
    (offered : node.readyc = true) (up : Cluster.run node .accepted .accept = .up node' phase') :
    phase' = .accepted ∧ Kept node' .accepted ∧ Grows node node' node.rd.committedEntries.length ∧
      node'.r.raftLog.storage = node.r.raftLog.storage := by
  have ran := Cluster.run_cases node .accepted .accept
  rw [up] at ran
  cases ran with
  | ok mid _ selected top =>
    obtain rfl := selected.of_accept offered
    obtain ⟨accepted, grows⟩ := kept.accept offered
    obtain ⟨kept', more⟩ := accepted.top top
    refine ⟨rfl, kept', grows.trans more, ?_⟩
    rcases Cluster.loopTop_cases top with ⟨rfl, _⟩ | ⟨_, _, rd, _, rfl⟩ <;> rfl

theorem run_advance {node node' : Node} {phase' : Phase} (kept : Kept node .sent)
    (up : Cluster.run node .idle .advance = .up node' phase') :
    phase' = .idle ∧ ∃ mid, mid.loopTop = .ok node' ∧ Kept mid .idle ∧ Grows node mid 0 ∧
      mid.readyc = false ∧ mid.r.raftLog.storage = node.r.raftLog.storage := by
  obtain ⟨_, out, readyc⟩ := kept.arms.resolve_left (by simp)
  have ran := Cluster.run_cases node .idle .advance
  rw [up] at ran
  cases ran with
  | ok mid _ selected top =>
    obtain ⟨works, done⟩ := selected.of_advance out
    obtain ⟨kept', grows⟩ := kept.advance works done
    have storage := kept.advance_storage works
    refine ⟨rfl, mid, top, kept', grows, ?_, storage⟩
    obtain ⟨r', _, shut⟩ := Outcome.bind_eq_ok.mp done
    cases shut
    exact readyc

theorem save_up {node node' : Node} {phase' : Phase} (kept : Kept node .accepted)
    (up : save node = .up node' phase') : Kept node' phase' ∧ phase' ≠ .idle ∧ Grows node node' 0 ∧
      node'.r.raftLog.storage.snap = node.r.raftLog.storage.snap := by
  unfold save at up
  split at up
  · cases up
  · rename_i storage done
    cases up
    obtain ⟨kept', grows⟩ := kept.save done
    exact ⟨kept', by simp, grows, MemStorage.save_snap done⟩
  · rename_i storage err done
    cases up
    obtain ⟨kept', grows⟩ := kept.save done
    exact ⟨kept', by simp, grows, MemStorage.save_snap done⟩

theorem compact_up {node node' : Node} {phase phase' : Phase} {threshold index : Nat}
    (kept : Kept node phase) (bound : index ≤ node.handed)
    (up : compact threshold node phase index = .up node' phase') :
    phase' = phase ∧ Kept node' phase ∧ Grows node node' 0 ∧ ∃ storage err,
      node.r.raftLog.storage.maybeCompact threshold index = .ok (storage, err) ∧
      node' = Cluster.withStorage node storage := by
  unfold compact at up
  split at up
  · cases up
  · rename_i storage err done
    cases up
    obtain ⟨kept', grows⟩ := kept.compact bound done
    exact ⟨rfl, kept', grows, storage, err, done, rfl⟩

/-- A snapshot that is installed with care is followed by a new `Ready`. -/
theorem run_snap {node node' : Node} {phase phase' : Phase} {m : Message} (kept : Kept node phase)
    (kind : m.type = .msgSnap)
    (careful : ∀ snap, m.snapshot = some snap → node.r.heeds m = true →
      (node.r.raftLog.storage.applySnapshot snap).2 = none →
        node.advancec = false ∧ node.r.raftLog.committed < snap.lastIncludedIndex)
    (up : Cluster.run node phase (.step m) = .up node' phase') :
    phase' = phase ∧ Kept node' phase ∧ node.r.raftLog.applied ≤ node'.r.raftLog.applied ∧
      node.r.raftLog.committed ≤ node'.r.raftLog.committed := by
  unfold Cluster.run at up
  split at up
  · cases up
  rename_i mid err ok
  split at up
  · cases up
  rename_i last top
  cases up
  refine ⟨rfl, ?_⟩
  simp only [select, kind, isLocalMsg] at ok
  obtain ⟨r', stepped, rfl⟩ := handle_eq_ok ok
  obtain ⟨after, same | ⟨heeds, installed⟩⟩ := Raft.step_snap kind stepped
  · have onward : RaftLog.Onward node.r.raftLog r'.raftLog := by
      rw [same]
      exact .refl kept.steady.shape
    obtain ⟨kept', grows⟩ := kept.onward onward (by rw [after]; exact kept.steady.after)
    obtain ⟨kept'', more⟩ := kept'.top top
    exact ⟨kept'', grows.applied.trans more.applied, grows.committed.trans more.committed⟩
  · have ahead : ∀ snap, m.snapshot = some snap →
        node.advancec = false ∧ node.r.raftLog.committed < snap.lastIncludedIndex := by
      intro snap carried
      obtain ⟨snap', storage, carried', applied, _⟩ := installed
      obtain rfl : snap = snap' := by rw [carried] at carried'; exact Option.some_inj.mp carried'
      exact careful snap carried heeds (by rw [applied])
    obtain ⟨shape, applied, committed, hd, reached⟩ :=
      installed.shape kept.steady.shape (fun snap carried => (ahead snap carried).2)
    obtain ⟨r, steps, prevHard, readyc, advancec⟩ := withRaft_rest node r'
    have steady : Steady (node.withRaft r') := by
      refine ⟨by rw [r]; exact shape, by rw [r, after]; exact kept.steady.after,
        by rw [steps]; exact kept.steady.steps, fun hs here => ?_, ?_⟩
      · rw [r]
        rw [prevHard] at here
        exact (kept.steady.prev hs here).trans (Nat.le_of_lt committed)
      · rw [r, hd]
        exact kept.steady.persisted.trans (Nat.le_of_lt committed)
    have idle : node.advancec = false := by
      obtain ⟨snap, _, carried, _⟩ := installed
      exact (ahead snap carried).1
    obtain ⟨rfl, _⟩ := kept.arms.resolve_right (by simp [idle])
    -- the committed index has moved, so the hard state is new
    have fresh : (node.withRaft r').hasReady = true := by
      have differs : some r'.hardState ≠ node.prevHard := by
        intro old
        have := kept.steady.prev _ old.symm
        simp only [Raft.hardState] at this
        omega
      have full : isEmptyHardState (some r'.hardState) = false := by
        simp [isEmptyHardState, Raft.hardState]
        omega
      simp [Node.hasReady, r, prevHard, differs, full]
    rcases Cluster.loopTop_cases top with ⟨_, busy | stale⟩ | ⟨_, _, rd, ready, rfl⟩
    · rw [advancec, idle] at busy
      cases busy
    · rw [fresh] at stale
      cases stale
    · refine ⟨⟨⟨steady.shape, steady.after, steady.steps, steady.prev, steady.persisted⟩,
        .inl ⟨rfl, by rw [← idle, ← advancec]⟩, fun _ => ⟨_, steady.offer ready⟩, fun _ => ?_⟩, ?_, ?_⟩
      · refine steady.persisted.trans ?_
        rw [r]
        exact reached
      · show _ ≤ (node.withRaft r').r.raftLog.applied
        rw [r]
        exact applied
      · show _ ≤ (node.withRaft r').r.raftLog.committed
        rw [r]
        exact Nat.le_of_lt committed

def Fit (p : Member) : Prop :=
  match p.proc with
  | .up node phase => Kept node phase
  | .down _ _ => True

/-- A process that stays up has moved its cursors forward, if at all. -/
theorem fit_of {p q : Member} {node : Node} {phase : Phase} (before : p.proc = .up node phase)
    (later : ∀ node' phase', q.proc = .up node' phase' → Kept node' phase' ∧
      node.r.raftLog.applied ≤ node'.r.raftLog.applied ∧ node.r.raftLog.committed ≤ node'.r.raftLog.committed) :
    q.Fit ∧ ∀ a' c' l', q.cursors? = some (a', c', l') →
      ∃ a c l, p.cursors? = some (a, c, l) ∧ a ≤ a' ∧ c ≤ c' := by
  cases now : q.proc with
  | down cause storage =>
    refine ⟨by rw [Fit, now]; trivial, fun a' c' l' here => ?_⟩
    rw [cursors?, now] at here
    cases here
  | up node' phase' =>
    obtain ⟨kept, applied, committed⟩ := later node' phase' now
    refine ⟨by rw [Fit, now]; exact kept, fun a' c' l' here => ?_⟩
    rw [cursors?, now] at here
    cases here
    exact ⟨_, _, _, by rw [cursors?, before], applied, committed⟩

/-- The cursors after an event against those before. -/
theorem Fit.step {threshold : Nat} {p : Member} {e : MemberEvent} (fit : p.Fit) (careful : p.Careful e) :
    (p.step threshold e).Fit ∧ ∀ a' c' l', (p.step threshold e).cursors? = some (a', c', l') →
      ∃ a c l, p.cursors? = some (a, c, l) ∧ a ≤ a' ∧ c ≤ c' := by
  cases here : p.proc with
  | down cause storage =>
    have same : p.step threshold e = p := by rw [Member.step, here]
    rw [same]
    exact ⟨fit, fun a' c' l' now => ⟨a', c', l', now, Nat.le_refl _, Nat.le_refl _⟩⟩
  | up node phase =>
    have still : p.Fit ∧ ∀ a' c' l', p.cursors? = some (a', c', l') →
        ∃ a c l, p.cursors? = some (a, c, l) ∧ a ≤ a' ∧ c ≤ c' :=
      ⟨fit, fun a' c' l' now => ⟨a', c', l', now, Nat.le_refl _, Nat.le_refl _⟩⟩
    rw [Fit, here] at fit
    cases e with
    | input arm =>
      simp only [Member.step, here]
      split
      · exact still
      · rename_i ordinary
        refine fit_of here fun node' phase' run => ?_
        by_cases snap : ∃ m, arm = .step m ∧ m.type = .msgSnap
        · obtain ⟨m, rfl, kind⟩ := snap
          obtain ⟨rfl, kept, applied, committed⟩ := run_snap fit kind (fun snap carried heeds installs =>
            careful.2 node (by rw [node?, here]; rfl) snap carried ⟨kind, heeds, installs⟩) run
          exact ⟨kept, applied, committed⟩
        · have plain : ∀ m, arm = .step m → Plain m := by
            rintro m rfl
            exact ⟨careful.1, fun kind => snap ⟨m, rfl, kind⟩⟩
          obtain ⟨rfl, mid, top, kept, grows, _⟩ :=
            run_input fit ordinary (plain_calls ordinary plain) run
          obtain ⟨kept', more⟩ := kept.top top
          exact ⟨kept', grows.applied.trans more.applied, grows.committed.trans more.committed⟩
    | ready =>
      simp only [Member.step, here]
      split
      · rename_i offered
        obtain ⟨rfl, offered⟩ := offered
        refine fit_of here fun node' phase' run => ?_
        obtain ⟨rfl, kept, grows, _⟩ := run_accept fit offered run
        exact ⟨kept, grows.applied, grows.committed⟩
      · exact still
    | save =>
      simp only [Member.step, here]
      split
      · rename_i accepted
        subst accepted
        refine fit_of here fun node' phase' run => ?_
        obtain ⟨kept, _, grows, _⟩ := save_up fit run
        exact ⟨kept, grows.applied, grows.committed⟩
      · exact still
    | send =>
      simp only [Member.step, here]
      split
      · rename_i saved
        subst saved
        refine fit_of here fun node' phase' sent => ?_
        cases sent
        exact ⟨fit.send, Nat.le_refl _, Nat.le_refl _⟩
      · exact still
    | advance =>
      simp only [Member.step, here]
      split
      · rename_i sent
        subst sent
        refine fit_of here fun node' phase' run => ?_
        obtain ⟨rfl, mid, top, kept, grows, _⟩ := run_advance fit run
        obtain ⟨kept', more⟩ := kept.top top
        exact ⟨kept', grows.applied.trans more.applied, grows.committed.trans more.committed⟩
      · exact still
    | compact index =>
      simp only [Member.step, here]
      refine fit_of here fun node' phase' run => ?_
      obtain ⟨rfl, kept, grows, _⟩ := compact_up fit (careful node (by rw [node?, here]; rfl)) run
      exact ⟨kept, grows.applied, grows.committed⟩

theorem Fit.run {threshold : Nat} {p : Member} {events : List MemberEvent} (fit : p.Fit)
    (careful : Runs.Along (Member.step threshold) Careful p events) :
    (Runs.exec (Member.step threshold) p events).Fit ∧ ∀ a' c' l',
      (Runs.exec (Member.step threshold) p events).cursors? = some (a', c', l') →
        ∃ a c l, p.cursors? = some (a, c, l) ∧ a ≤ a' ∧ c ≤ c' := by
  induction events generalizing p with
  | nil => exact ⟨fit, fun a' c' l' here => ⟨a', c', l', here, Nat.le_refl _, Nat.le_refl _⟩⟩
  | cons e events ih =>
    obtain ⟨next, near⟩ := fit.step careful.1
    obtain ⟨last, far⟩ := ih next careful.2
    refine ⟨last, fun a'' c'' l'' here => ?_⟩
    obtain ⟨a', c', l', there, applied', committed'⟩ := far a'' c'' l'' here
    obtain ⟨a, c, l, start, applied, committed⟩ := near a' c' l' there
    exact ⟨a, c, l, start, applied.trans applied', committed.trans committed'⟩

theorem Fit.cursors {p : Member} (fit : p.Fit) {a c l : Nat} (here : p.cursors? = some (a, c, l)) :
    a ≤ c ∧ c ≤ l := by
  cases up : p.proc with
  | down cause storage =>
    rw [cursors?, up] at here
    cases here
  | up node phase =>
    rw [cursors?, up] at here
    rw [Fit, up] at fit
    cases here
    exact ⟨fit.steady.shape.order, fit.steady.shape.high⟩

theorem start_fit {cfg : Config} (sound : cfg.storage.Sound) : (start cfg).Fit := by
  unfold Fit
  split
  · rename_i node phase up
    obtain ⟨r, _, rfl, kept, _⟩ := start_kept sound up
    exact kept
  · trivial

/-- At every moment the cursors are in order, and from one moment to a later one
neither the applied nor the committed index goes back. -/
def CursorsInOrder (threshold : Nat) (cfg : Config) (events : List MemberEvent) : Prop :=
  ∀ i j, i ≤ j → ∀ a' c' l',
    (Runs.exec (step threshold) (start cfg) (events.take j)).cursors? = some (a', c', l') →
    a' ≤ c' ∧ c' ≤ l' ∧ ∃ a c l,
      (Runs.exec (step threshold) (start cfg) (events.take i)).cursors? = some (a, c, l) ∧ a ≤ a' ∧ c ≤ c'

/-- Snapshots installed ahead of the committed entries and between two rounds of the host
leave the cursors in order. -/
theorem cursors_in_order (threshold : Nat) (cfg : Config) (sound : cfg.storage.Sound)
    (events : List MemberEvent)
    (careful : Runs.Along (step threshold) Careful (start cfg) events) :
    CursorsInOrder threshold cfg events := by
  intro i j order a' c' l' here
  obtain ⟨k, rfl⟩ := Nat.exists_eq_add_of_le order
  have before : Runs.Along (step threshold) Careful (start cfg) (events.take (i + k)) := by
    rw [← List.take_append_drop (i + k) events, Runs.along_append] at careful
    exact careful.1
  rw [List.take_add, Runs.along_append] at before
  rw [List.take_add, Runs.exec_append] at here
  obtain ⟨middle, _⟩ := (start_fit sound).run before.1
  obtain ⟨fit, back⟩ := middle.run before.2
  exact ⟨(fit.cursors here).1, (fit.cursors here).2, back a' c' l' here⟩

def followerConfig : Config where
  id := 1
  peers := [2, 3]
  storage := {}
  applied := 0
  electionTick := 2
  heartbeatTick := 1
  rng := fun _ => 0

def followOne : List MemberEvent :=
  [.input (.step { type := .msgApp, fromId := 2, toId := 1, term := 1, entries := [⟨1, 1, []⟩] }),
    .ready, .save, .send, .advance,
    .input (.step { type := .msgHeartbeat, fromId := 2, toId := 1, term := 1, commit := 1 })]

def snapFive : MemberEvent :=
  .input (.step { type := .msgSnap, fromId := 2, toId := 1, term := 1, snapshot := some ⟨5, 1⟩ })

theorem snapshot_between_rounds : CursorsInOrder 1 followerConfig
    (followOne ++ [.ready, .save, .send, .advance, snapFive, .ready, .save, .send, .advance]) :=
  cursors_in_order 1 followerConfig sound_empty _ (by decide +kernel)

/-- A snapshot under a `Ready`: `Advance` takes the applied index back. -/
theorem snapshot_under_ready :
    (Runs.exec (step 1) (start followerConfig) (followOne ++ [.ready, snapFive])).cursors? =
        some (5, 5, 5) ∧
      (Runs.exec (step 1) (start followerConfig)
        (followOne ++ [.ready, snapFive, .save, .send, .advance])).cursors? = some (1, 5, 5) := by
  decide +kernel

end Member

end Kvgo

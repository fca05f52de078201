import Kvgo.Raft.LogShape
import Kvgo.Raft.StateMachine

/-! Log Matching: two logs that hold an entry of one term at one index agree on all that
lies below it. -/

namespace Kvgo

namespace RaftLog

def heldAt (l : RaftLog) (i : Nat) : Option Entry :=
  if l.lastIndex < i then none
  else (if l.unstable.offset ≤ i then l.unstable.entries[i - l.unstable.offset]? else none).or
    (l.storage.entryAt i)

def knownTerm (l : RaftLog) (j : Nat) : Option Nat :=
  if j = l.storage.snap.lastIncludedIndex then some l.storage.snap.lastIncludedTerm
  else (l.heldAt j).map Entry.term

def MatchesLog (l l' : RaftLog) : Prop :=
  ∀ i e e', l.heldAt i = some e → l'.heldAt i = some e' → e.term = e'.term → ∀ j, 0 < j → j ≤ i →
    (∀ a b, l.knownTerm j = some a → l'.knownTerm j = some b → a = b) ∧
      ∀ d d', l.heldAt j = some d → l'.heldAt j = some d' → d = d'

variable {l l' : RaftLog}

theorem Layered.heldAt (ok : l.Layered) (i : Nat) :
    l.heldAt i = if i = 0 then none else l.view[i - 1]? := by
  have positive := ok.positive
  have length := ok.length
  have stored := ok.stored
  unfold RaftLog.heldAt
  rw [ok.lastIndex]
  by_cases beyond : l.view.length < i
  · rw [if_pos beyond, if_neg (by omega), List.getElem?_eq_none (by omega)]
  rw [if_neg beyond]
  by_cases zero : i = 0
  · rw [if_pos zero, if_neg (by omega), zero, Option.none_or, MemStorage.entryAt]
    by_cases none : l.storage.entries = []
    · simp [none]
    · rw [ok.plain.firstIndex_cons none, if_neg (by omega)]
  rw [if_neg zero]
  by_cases upper : l.unstable.offset ≤ i
  · rw [if_pos upper, List.getElem?_eq_getElem (by omega), Option.some_or,
      view_above ok.stored (by omega), ← List.getElem?_eq_getElem]
    congr 1
    omega
  · have some : l.storage.entries ≠ [] := by
      intro none
      rw [none, List.length_nil] at stored
      omega
    rw [if_neg upper, Option.none_or, view_below ok.stored (by omega), MemStorage.entryAt,
      ok.plain.firstIndex_cons some, if_pos (by omega)]

/-- Two logs of one history match. -/
theorem Layered.matchesLog {s : History} (ok : l.Layered) (ok' : l'.Layered)
    (fine : TermLog.LogOK Entry.term s l.view) (fine' : TermLog.LogOK Entry.term s l'.view) :
    MatchesLog l l' := by
  intro i e e' here here' same j positive below
  rw [ok.heldAt] at here
  rw [ok'.heldAt] at here'
  rw [if_neg (by omega)] at here here'
  have agree := TermLog.LogOK.match fine fine' here here' same
  have entry : l.heldAt j = l'.heldAt j := by
    rw [ok.heldAt, ok'.heldAt, if_neg (by omega), if_neg (by omega)]
    exact agree.get (by omega)
  refine ⟨fun a b known known' => ?_, fun d d' there there' => ?_⟩
  · rw [knownTerm, ok.plain.snap, if_neg (by omega), entry] at known
    rw [knownTerm, ok'.plain.snap, if_neg (by omega)] at known'
    exact Option.some_inj.mp (known.symm.trans known')
  · rw [entry] at there
    exact Option.some_inj.mp (there.symm.trans there')

end RaftLog

def LogsMatch (c : Cluster) : Prop :=
  ∀ n n' r r', c.raft? n = some r → c.raft? n' = some r' → RaftLog.MatchesLog r.raftLog r'.raftLog

theorem ClusterSim.core {cfg : ClusterConfig} {s : History} {c : Cluster} (sim : ClusterSim cfg s c) {n : Nat}
    {r : Raft} (up : c.raft? n = some r) : Raft.Sim cfg.voters s n r := by
  unfold Cluster.raft? at up
  split at up
  · rename_i node phase here
    cases up
    exact (sim.hosts n node phase here).1.core
  · cases up

/-- Log Matching for tame runs without compaction and restarts. -/
theorem log_matching (cfg : ClusterConfig) (rng : Nat → Nat → Nat) (events : List ClusterEvent)
    (lasting : ∀ e ∈ events, Cluster.isLasting e = true)
    (tame : Runs.Along (Cluster.step cfg) Cluster.Tame (Cluster.init cfg rng) events) :
    LogsMatch (Cluster.exec cfg (Cluster.init cfg rng) events) := by
  obtain ⟨s, sim⟩ := exists_sim lasting tame
  intro n n' r r' up up'
  have core := sim.core up
  have core' := sim.core up'
  refine core.layered.matchesLog core'.layered (s := s) ?_ ?_
  · rw [← core.log]
    exact (sim.inv.nodeLog n).1
  · rw [← core'.log]
    exact (sim.inv.nodeLog n').1

theorem firstCommit_matches :
    LogsMatch (Cluster.exec threeNodes (Cluster.init threeNodes (fun _ _ => 0)) firstCommit) :=
  log_matching _ _ _ (by decide +kernel) (by decide +kernel)

def fiveNodes : ClusterConfig where
  voters := [1, 2, 3, 4, 5]
  electionTick := 2
  heartbeatTick := 1
  nodup := by decide
  nonzero := by decide
  ticks := threeNodes.ticks

/-- Leader 1 of term 1 replicates three entries to node 2, of which the others get the
first. Node 3 is elected in term 2, commits its own second entry, compacts, and sends node
2 a snapshot, which leaves the third entry of node 2 in place. -/
def keptSuffix : List ClusterEvent :=
  [[.campaign 1], Cluster.round 1, [.deliver 0, .deliver 1], Cluster.round 2, Cluster.round 3,
    [.deliver 4, .deliver 5], Cluster.round 1, [.deliver 6, .deliver 7], Cluster.round 2, Cluster.round 3,
    [.deliver 10, .deliver 11], Cluster.round 1, [.propose 1 [7], .propose 1 [8]], Cluster.round 1,
    [.deliver 13, .deliver 14, .deliver 15], Cluster.round 3, Cluster.round 4, Cluster.round 5,
    [.deliver 20], Cluster.round 2, [.campaign 3], Cluster.round 3, [.deliver 30, .deliver 31],
    Cluster.round 4, Cluster.round 5, [.deliver 32, .deliver 33], Cluster.round 3,
    [.deliver 36, .deliver 37], Cluster.round 4, Cluster.round 5, [.deliver 38, .deliver 39], Cluster.round 3,
    [.deliver 42, .deliver 43], Cluster.round 4, Cluster.round 5, [.deliver 44, .deliver 45], Cluster.round 3,
    Cluster.round 3, [.compact 3 2, .propose 3 [9]], Cluster.round 3, [.deliver 47]].flatten

theorem keptSuffix_mismatch :
    ¬LogsMatch (Cluster.exec fiveNodes (Cluster.init fiveNodes (fun _ _ => 0)) keptSuffix) := by
  intro logsMatch
  have first : ((Cluster.exec fiveNodes (Cluster.init fiveNodes (fun _ _ => 0)) keptSuffix).raft? 1).map
      (fun r => (r.raftLog.heldAt 3, r.raftLog.knownTerm 2)) = some (some ⟨3, 1, [8]⟩, some 1) := by
    decide +kernel
  have second : ((Cluster.exec fiveNodes (Cluster.init fiveNodes (fun _ _ => 0)) keptSuffix).raft? 2).map
      (fun r => (r.raftLog.heldAt 3, r.raftLog.knownTerm 2)) = some (some ⟨3, 1, [8]⟩, some 2) := by
    decide +kernel
  obtain ⟨r, up, here⟩ := Option.map_eq_some_iff.mp first
  obtain ⟨r', up', here'⟩ := Option.map_eq_some_iff.mp second
  obtain ⟨entry, term⟩ := Prod.mk.inj here
  obtain ⟨entry', term'⟩ := Prod.mk.inj here'
  have agree := (logsMatch 1 2 r r' up up' 3 _ _ entry entry' rfl 2 (by decide) (by decide)).1 1 2 term term'
  cases agree

end Kvgo

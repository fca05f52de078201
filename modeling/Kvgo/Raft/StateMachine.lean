import Kvgo.Raft.Boot
import Kvgo.Raft.Host

/-! State machine safety: two nodes that deliver an entry at one index deliver the same
entry. The runs are those without restarts and compaction whose calls of `Step` are
tame; every other timing of messages, ticks, proposals and hosts is allowed. -/

namespace Kvgo

namespace Cluster

def lentArray (c : Cluster) (e : ClusterEvent) : Option Nat :=
  match c.target e with
  | none => none
  | some (id, _) =>
    match c.procs id with
    | .down _ _ => none
    | .up node _ => node.lentArray

def Tame (c : Cluster) (e : ClusterEvent) : Prop :=
  ∀ call ∈ c.stepCalls e, Raft.Tame (c.lentArray e) call.1 call.2

instance (c : Cluster) (e : ClusterEvent) : Decidable (Tame c e) := by
  unfold Tame; infer_instance

def isLasting : ClusterEvent → Bool
  | .compact _ _ => false
  | .restart _ _ => false
  | _ => true

end Cluster

structure ClusterSim (cfg : ClusterConfig) (s : History) (c : Cluster) : Prop where
  inv : TermLog.Inv Entry.term cfg.voters s
  hosts : ∀ n node phase, c.procs n = .up node phase →
    HostSim cfg s n node phase ∧ node.UpToDate phase
  packets : ∀ p ∈ c.packets, MsgOK cfg.voters s p.msg
  delivered : ∀ d ∈ c.delivered, SafeEntry cfg.voters s d.2

section Keep

variable {cfg : ClusterConfig} {s s' : History} {c : Cluster}

theorem ClusterSim.setProc (sim : ClusterSim cfg s c) {id : Nat} {proc : Proc} (arrived : List Nat)
    {delivered : List (Nat × Entry)} (moves : TermLog.Moves Entry.term cfg.voters id s s')
    (up : ∀ node phase, proc = .up node phase → HostSim cfg s' id node phase ∧ node.UpToDate phase)
    (safe : ∀ d ∈ delivered, SafeEntry cfg.voters s d.2) :
    ClusterSim cfg s' { c.setProc id proc with arrived, delivered } := by
  obtain ⟨inv', ext, frame⟩ := sim.inv.moves moves
  refine ⟨inv', fun n node phase here => ?_, fun p sent => (sim.packets p sent).ext sim.inv ext,
    fun d inside => (safe d inside).ext sim.inv ext⟩
  by_cases same : n = id
  · subst same
    exact up node phase (by simpa [Cluster.setProc] using here)
  · obtain ⟨host, fresh⟩ := sim.hosts n node phase (by simpa [Cluster.setProc, same] using here)
    exact ⟨host.frame sim.inv ext frame same, fresh⟩

theorem ClusterSim.sound (sim : ClusterSim cfg s c) {e : ClusterEvent} {id : Nat} {arm : Node.Event}
    {node : Node} (aimed : c.target e = some (id, arm)) (ordinary : arm ≠ .advance) :
    ∀ call ∈ node.stepCalls arm, Raft.Sound cfg.voters s id call.2 := by
  intro call inside
  obtain ⟨_, ⟨_, p, _, found, target, same⟩ | ⟨_, kind⟩⟩ := Cluster.calls_cases aimed ordinary inside
  · rw [same]
    exact ⟨sim.packets p (List.mem_of_getElem? found), fun _ => target⟩
  · refine ⟨msgOK_of_silent ?_, ?_⟩
    · rcases kind with kind | kind | kind | ⟨kind, _⟩ <;> simp [isSilent, kind]
    · rcases kind with kind | kind | kind | ⟨kind, _⟩ <;> simp [kind]

theorem HostSim.selected {n : Nat} {node mid : Node} {phase : Phase} {arm : Node.Event}
    (sim : HostSim cfg s n node phase) (inv : TermLog.Inv Entry.term cfg.voters s)
    (ordinary : arm ≠ .accept ∧ arm ≠ .advance)
    (each : ∀ call ∈ node.stepCalls arm,
      Raft.Sound cfg.voters s n call.2 ∧ Raft.Tame node.lentArray call.1 call.2)
    (selected : node.Selected arm mid) :
    ∃ s', TermLog.Moves Entry.term cfg.voters n s s' ∧ HostSim cfg s' n mid phase := by
  cases selected with
  | idle => exact ⟨s, .refl, sim⟩
  | work r' _ works =>
    obtain ⟨⟨s', moves, core⟩, memory⟩ := sim.core.works inv each works
    exact ⟨s', moves, sim.withRaft inv moves core memory⟩
  | accept kind => exact absurd kind ordinary.1
  | advance _ kind => exact absurd kind ordinary.2

theorem HostSim.ran {n : Nat} {node : Node} {phase : Phase} {arm : Node.Event} {proc : Proc}
    (ran : Cluster.Ran node phase arm proc)
    (selected : ∀ mid, node.Selected arm mid →
      ∃ s', TermLog.Moves Entry.term cfg.voters n s s' ∧ HostSim cfg s' n mid phase) :
    ∃ s', TermLog.Moves Entry.term cfg.voters n s s' ∧
      ∀ node' phase', proc = .up node' phase' → HostSim cfg s' n node' phase' ∧ node'.UpToDate phase' := by
  cases ran with
  | panicked p failed => exact ⟨s, .refl, by simp⟩
  | panickedAfter mid p done failed => exact ⟨s, .refl, by simp⟩
  | ok mid node' done top =>
    obtain ⟨s', moves, sim⟩ := selected mid done
    refine ⟨s', moves, fun node'' phase'' here => ?_⟩
    cases here
    exact sim.loopTop top

theorem ClusterSim.send (sim : ClusterSim cfg s c) {id : Nat} {node : Node}
    (up : c.procs id = .up node .saved) :
    ClusterSim cfg s { c.setProc id (.up node .sent) with
      packets := c.packets ++ node.rd.messages.map (Packet.mk id) } := by
  obtain ⟨host, _⟩ := sim.hosts id node .saved up
  refine ⟨sim.inv, fun n node' phase here => ?_, fun p inside => ?_, sim.delivered⟩
  · by_cases same : n = id
    · subst same
      simp only [Cluster.setProc, Function.update_self, Proc.up.injEq] at here
      obtain ⟨rfl, rfl⟩ := here
      refine ⟨{ host with
        flags := by simpa using host.flags
        running := by simp
        waiting := by simp
        lent := fun _ some =>
          let ⟨o, lent, _, after⟩ := host.lent (by simp) some
          ⟨o, lent, by simp, fun _ => after (.inl rfl)⟩ }, by simp [Node.UpToDate]⟩
    · exact sim.hosts n node' phase (by simpa [Cluster.setProc, same] using here)
  · rcases List.mem_append.mp inside with old | new
    · exact sim.packets p old
    · obtain ⟨msg, lent, rfl⟩ := List.mem_map.mp new
      exact host.messages msg lent

/-- A tame step of the cluster is matched in the history. -/
theorem ClusterSim.step (sim : ClusterSim cfg s c) {e : ClusterEvent} (lasting : Cluster.isLasting e = true)
    (tame : Cluster.Tame c e) :
    ∃ s', TermLog.Ext s s' ∧ ClusterSim cfg s' (Cluster.step cfg c e) := by
  have stepped := Cluster.step_cases cfg c e
  unfold Cluster.Tame Cluster.stepCalls Cluster.lentArray at tame
  generalize Cluster.step cfg c e = c' at stepped
  cases stepped with
  | skip e arrived => exact ⟨s, .refl s, { sim with }⟩
  | ran e arrived id node phase arm proc up aimed ordinary ran =>
    simp only [aimed, up, ordinary.2, false_and, if_false] at tame
    obtain ⟨host, _⟩ := sim.hosts id node phase up
    obtain ⟨s', moves, fine⟩ := HostSim.ran ran (fun mid => host.selected sim.inv ordinary
      (fun call inside => ⟨sim.sound aimed ordinary.2 call inside, tame call inside⟩))
    exact ⟨s', (sim.inv.moves moves).2.1, sim.setProc arrived moves fine sim.delivered⟩
  | ready id node proc up enabled ran =>
    obtain ⟨host, fresh⟩ := sim.hosts id node .idle up
    obtain ⟨s', moves, fine⟩ := HostSim.ran (s := s) ran (fun mid selected => by
      rw [selected.of_accept enabled]
      exact ⟨s, .refl, host.accept fresh sim.inv enabled⟩)
    refine ⟨s', (sim.inv.moves moves).2.1, sim.setProc c.arrived moves fine ?_⟩
    intro d inside
    rcases List.mem_append.mp inside with old | new
    · exact sim.delivered d old
    · obtain ⟨entry, committed, rfl⟩ := List.mem_map.mp new
      exact host.committed entry committed
  | advance id node proc up ran =>
    simp only [Cluster.target, up, ne_eq, not_true, and_false, if_false] at tame
    obtain ⟨host, _⟩ := sim.hosts id node .sent up
    have enabled : node.advancec = true := by simpa using host.flags
    obtain ⟨s', moves, fine⟩ := HostSim.ran ran (fun mid selected => by
      obtain ⟨works, done⟩ := selected.of_advance enabled
      exact host.advance sim.inv enabled tame works done)
    exact ⟨s', (sim.inv.moves moves).2.1, sim.setProc c.arrived moves fine sim.delivered⟩
  | save id node storage err up saved =>
    have host := (sim.hosts id node .accepted up).1.save saved
    refine ⟨s, .refl s, sim.setProc c.arrived .refl (fun node' phase' same => ?_) sim.delivered⟩
    cases same
    refine ⟨host, fun idle => ?_⟩
    split at idle <;> cases idle
  | send id node up => exact ⟨s, .refl s, sim.send up⟩
  | compact id index => simp [Cluster.isLasting] at lasting
  | halt e id node phase cause up kind =>
    exact ⟨s, .refl s, sim.setProc c.arrived .refl (by simp) sim.delivered⟩
  | restart id rng => simp [Cluster.isLasting] at lasting

/-- A new process on an empty storage. -/
theorem sim_of_fresh {n : Nat} {rng : Nat → Nat} {r : Raft} (voter : n ∈ cfg.voters)
    (fresh : Raft.Fresh (Cluster.nodeConfig cfg n {} rng) r) :
    Raft.Sim cfg.voters (TermLog.State.init Nat Entry) n r := by
  have electorate : r.trk.voters.ids.Perm cfg.voters := by
    rw [fresh.voters]; exact Cluster.buildMajorityConfig_perm cfg voter
  have storage : r.raftLog.storage = {} := fresh.storage
  have unstable : r.raftLog.unstable = { offset := 1 } := fresh.unstable
  have view : r.raftLog.view = [] := by simp [RaftLog.view, storage, unstable]
  have committed : r.raftLog.committed = 0 := by
    rcases fresh.committed with same | same <;> exact same
  refine ⟨fresh.id, fun zero => cfg.nonzero (zero ▸ voter), ?_, electorate, ⟨⟨by simp [storage], ?_⟩, ?_, ?_, ?_, ?_, ?_⟩,
    view.symm, fresh.term.symm, ?_, .inl (by simp [view]), by simp [fresh.state], by simp [fresh.state],
    by simp [fresh.state], by simp [fresh.state], by simp [fresh.state],
    by simp [Raft.held, fresh.messages, fresh.msgsAfterAppend]⟩
  · intro none
    have := electorate.length_eq
    have := List.length_pos_of_mem voter
    simp only [MajorityConfig.size] at none
    omega
  · intro i e here; simp [storage] at here
  · simp [unstable]
  · simp [unstable]
  · intro i e here; simp [unstable] at here
  · simp [storage, unstable]
  · simp [committed]
  · have none : r.votedFor = None := fresh.votedFor
    simp [none, TermLog.State.init]

theorem ClusterSim.init (cfg : ClusterConfig) (rng : Nat → Nat → Nat) :
    ClusterSim cfg (TermLog.State.init Nat Entry) (Cluster.init cfg rng) := by
  refine ⟨TermLog.Inv.init _ _, fun n node phase up => ?_, by simp [Cluster.init], by simp [Cluster.init]⟩
  simp only [Cluster.init] at up
  split at up
  · rename_i voter
    obtain ⟨rfl, r, fresh, top⟩ := Cluster.boot_up up
    refine HostSim.loopTop ?_ top
    exact ⟨voter, sim_of_fresh voter fresh, by simp, by simp, by simp, by simp, by simp, by simp, by simp⟩
  · cases up

end Keep

def StateMachineSafe (c : Cluster) : Prop :=
  ∀ d ∈ c.delivered, ∀ d' ∈ c.delivered, d.2.index = d'.2.index →
    d.2.term = d'.2.term ∧ d.2.data = d'.2.data

instance (c : Cluster) : Decidable (StateMachineSafe c) := by
  unfold StateMachineSafe; infer_instance

theorem exists_sim {cfg : ClusterConfig} {rng : Nat → Nat → Nat} {events : List ClusterEvent}
    (lasting : ∀ e ∈ events, Cluster.isLasting e = true)
    (tame : Runs.Along (Cluster.step cfg) Cluster.Tame (Cluster.init cfg rng) events) :
    ∃ s, ClusterSim cfg s (Cluster.exec cfg (Cluster.init cfg rng) events) := by
  refine Runs.invariant _ (fun c => ∃ s, ClusterSim cfg s c) ?_ ⟨_, .init cfg rng⟩
    (Runs.along_and _ lasting tame)
  rintro c e ⟨s, sim⟩ ⟨lasting, tame⟩
  obtain ⟨s', _, sim'⟩ := sim.step lasting tame
  exact ⟨s', sim'⟩

/-- State machine safety of the runs without restarts and compaction in which no call of
`Step` takes one of the branches that lose or forge acknowledgements. -/
theorem state_machine_safety (cfg : ClusterConfig) (rng : Nat → Nat → Nat) (events : List ClusterEvent)
    (lasting : ∀ e ∈ events, Cluster.isLasting e = true)
    (tame : Runs.Along (Cluster.step cfg) Cluster.Tame (Cluster.init cfg rng) events) :
    StateMachineSafe (Cluster.exec cfg (Cluster.init cfg rng) events) := by
  obtain ⟨s, sim⟩ := exists_sim lasting tame
  intro d inside d' inside' same
  have equal := (sim.delivered d inside).unique sim.inv (sim.delivered d' inside') same
  rw [equal]
  exact ⟨rfl, rfl⟩

def firstDelivery : List ClusterEvent :=
  [firstCommit, [.tick 2], Cluster.round 2, [.deliver 12, .ready 3]].flatten

theorem firstDelivery_safe :
    (Cluster.exec threeNodes (Cluster.init threeNodes (fun _ _ => 0)) firstDelivery).delivered =
        [(2, ⟨1, 1, []⟩), (2, ⟨2, 1, [7]⟩), (3, ⟨1, 1, []⟩), (3, ⟨2, 1, [7]⟩)] ∧
      StateMachineSafe (Cluster.exec threeNodes (Cluster.init threeNodes (fun _ _ => 0)) firstDelivery) :=
  ⟨by decide +kernel, state_machine_safety _ _ _ (by decide +kernel) (by decide +kernel)⟩

/-- After `firstCommit` the first append reaches node 3 late and cuts off the proposal
that node 3 has acknowledged. Node 1, which never saw the proposal, is elected with the
vote of node 3 and commits another entry at its index. -/
def lostEntry : List ClusterEvent :=
  [firstCommit, [.deliver 7], Cluster.round 3, [.deliver 6], Cluster.round 1, [.campaign 1],
    Cluster.round 1, [.deliver 14], Cluster.round 3, [.deliver 15], Cluster.round 1, [.deliver 17],
    Cluster.round 3, [.deliver 18], Cluster.round 1, [.deliver 20], Cluster.round 3,
    [.deliver 21, .ready 1]].flatten

theorem lostEntry_unsafe : (∀ e ∈ lostEntry, Cluster.isLasting e = true) ∧
    ¬StateMachineSafe (Cluster.exec threeNodes (Cluster.init threeNodes (fun _ _ => 0)) lostEntry) := by
  decide +kernel

end Kvgo

import Kvgo.Raft.Work

/-! The cases of one step of the cluster, with the guard of each. -/

namespace Kvgo

namespace Cluster

/-- The node and the arm of its loop that an event runs, for the events that call `Step`. -/
def target (c : Cluster) : ClusterEvent → Option (Nat × Node.Event)
  | .deliver position => c.packets[position]?.map (fun p => (p.msg.toId, .step p.msg))
  | .tick id => some (id, .tick)
  | .campaign id => some (id, .campaign)
  | .propose id data => some (id, .propose data)
  | .readIndex id ctx => some (id, .readIndex ctx)
  | .transfer id target => some (id, .step { type := .msgTransferLeader, fromId := target })
  | .advance id => some (id, .advance)
  | _ => none

/-- The calls of `Step` that an event makes, with the state each call finds. -/
def stepCalls (c : Cluster) (e : ClusterEvent) : List (Raft × Message) :=
  match c.target e with
  | none => []
  | some (id, arm) =>
    match c.procs id with
    | .down _ _ => []
    | .up node phase => if arm = .advance ∧ phase ≠ .sent then [] else node.stepCalls arm

inductive Ran (node : Node) (phase : Phase) (arm : Node.Event) : Proc → Prop
  | panicked (p : Panic) (failed : node.select arm = .error p) :
      Ran node phase arm (.down (some p) node.r.raftLog.storage)
  | panickedAfter (mid : Node) (p : Panic) (selected : node.Selected arm mid)
      (failed : mid.loopTop = .error p) : Ran node phase arm (.down (some p) mid.r.raftLog.storage)
  | ok (mid node' : Node) (selected : node.Selected arm mid) (top : mid.loopTop = .ok node') :
      Ran node phase arm (.up node' phase)

theorem run_cases (node : Node) (phase : Phase) (arm : Node.Event) :
    Ran node phase arm (run node phase arm) := by
  unfold run
  split
  · rename_i p failed
    exact .panicked p failed
  · rename_i mid err ok
    have selected := Node.select_cases ok
    split
    · rename_i p failed
      exact .panickedAfter mid p selected failed
    · rename_i node' top
      exact .ok mid node' selected top

/-- The head of the loop leaves the node as it is, or computes the next `Ready`. -/
theorem loopTop_cases {n n' : Node} (top : n.loopTop = .ok n') :
    n' = n ∧ (n.advancec = true ∨ n.hasReady = false) ∨
      n.advancec = false ∧ n.hasReady = true ∧ ∃ rd, n.ready = .ok rd ∧
        n' = { n with rd, rdArray := n.r.raftLog.unstable.array, readyc := true } := by
  unfold Node.loopTop at top
  split at top
  · rename_i enabled
    obtain ⟨rd, ready, top⟩ := Outcome.bind_eq_ok.mp top
    cases top
    simp only [Bool.and_eq_true, Bool.not_eq_true'] at enabled
    exact .inr ⟨enabled.1, enabled.2, rd, ready, rfl⟩
  · rename_i disabled
    cases top
    refine .inl ⟨rfl, ?_⟩
    simp only [Bool.and_eq_true, Bool.not_eq_true', not_and, Bool.not_eq_true] at disabled
    exact (Bool.eq_false_or_eq_true n.advancec).imp_right disabled

inductive Stepped (cfg : ClusterConfig) (c : Cluster) : ClusterEvent → Cluster → Prop
  | skip (e : ClusterEvent) (arrived : List Nat) : Stepped cfg c e { c with arrived }
  | ran (e : ClusterEvent) (arrived : List Nat) (id : Nat) (node : Node) (phase : Phase)
      (arm : Node.Event) (proc : Proc) (up : c.procs id = .up node phase)
      (aimed : c.target e = some (id, arm)) (ordinary : arm ≠ .accept ∧ arm ≠ .advance)
      (ran : Ran node phase arm proc) : Stepped cfg c e { c.setProc id proc with arrived }
  | ready (id : Nat) (node : Node) (proc : Proc) (up : c.procs id = .up node .idle)
      (enabled : node.readyc = true) (ran : Ran node .accepted .accept proc) :
      Stepped cfg c (.ready id)
        { c.setProc id proc with
          delivered := c.delivered ++ node.rd.committedEntries.map (id, ·) }
  | advance (id : Nat) (node : Node) (proc : Proc) (up : c.procs id = .up node .sent)
      (ran : Ran node .idle .advance proc) : Stepped cfg c (.advance id) (c.setProc id proc)
  | save (id : Nat) (node : Node) (storage : MemStorage) (err : Option StorageError)
      (up : c.procs id = .up node .accepted)
      (saved : node.r.raftLog.storage.save node.rd.entries node.rd.hardState =
        .ok (storage, err)) :
      Stepped cfg c (.save id) (c.setProc id
        (.up (withStorage node storage) (if err = none then .saved else .stopped)))
  | send (id : Nat) (node : Node) (up : c.procs id = .up node .saved) :
      Stepped cfg c (.send id)
        { c.setProc id (.up node .sent) with
          packets := c.packets ++ node.rd.messages.map (Packet.mk id) }
  | compact (id index : Nat) (node : Node) (phase : Phase) (storage : MemStorage)
      (err : Option StorageError) (up : c.procs id = .up node phase)
      (compacted : node.r.raftLog.storage.compactLocked index = .ok (storage, err)) :
      Stepped cfg c (.compact id index) (c.setProc id (.up (withStorage node storage) phase))
  /-- The process ends, by a crash or by a panic of the storage. -/
  | halt (e : ClusterEvent) (id : Nat) (node : Node) (phase : Phase) (cause : Option Panic)
      (up : c.procs id = .up node phase)
      (kind : e = .crash id ∨ cause ≠ none ∧ (e = .save id ∧ phase = .accepted ∧ cause = some .runtime ∨
        ∃ index, e = .compact id index)) :
      Stepped cfg c e (c.setProc id (.down cause node.r.raftLog.storage))
  | restart (id : Nat) (rng : Nat → Nat) (cause : Option Panic) (storage : MemStorage)
      (down : c.procs id = .down cause storage) (voter : id ∈ cfg.voters) :
      Stepped cfg c (.restart id rng) (c.setProc id (boot cfg id storage rng))

theorem onNode_stepped {cfg : ClusterConfig} {c : Cluster} {e : ClusterEvent} {id : Nat}
    {arm : Node.Event} (arrived : List Nat) (aimed : c.target e = some (id, arm))
    (ordinary : arm ≠ .accept ∧ arm ≠ .advance) :
    Stepped cfg c e ({ c with arrived }.onNode id arm) := by
  unfold onNode
  split
  · exact .skip e arrived
  · rename_i node phase up
    exact .ran e arrived id node phase arm _ up aimed ordinary (run_cases node phase arm)

theorem save_error {s : MemStorage} {entries : List Entry} {hard : Option HardState} {p : Panic}
    (failed : s.save entries hard = .error p) : p = .runtime := by
  simp only [MemStorage.save, MemStorage.truncateAndAppend] at failed
  repeat' split at failed
  all_goals cases failed
  rfl

/-- Every step of the cluster is one of the cases. -/
theorem step_cases (cfg : ClusterConfig) (c : Cluster) (e : ClusterEvent) :
    Stepped cfg c e (step cfg c e) := by
  cases e with
  | deliver position =>
    simp only [step, deliver]
    split
    · exact .skip _ c.arrived
    · rename_i packet found
      exact onNode_stepped _ (by simp [target, found]) (by simp)
  | tick id => exact onNode_stepped c.arrived rfl (by simp)
  | campaign id => exact onNode_stepped c.arrived rfl (by simp)
  | propose id data => exact onNode_stepped c.arrived rfl (by simp)
  | readIndex id ctx => exact onNode_stepped c.arrived rfl (by simp)
  | transfer id x => exact onNode_stepped c.arrived rfl (by simp)
  | ready id =>
    simp only [step, ready]
    split
    · rename_i node up
      split
      · rename_i enabled
        exact .ready id node _ up enabled (run_cases node .accepted .accept)
      · exact .skip _ c.arrived
    · exact .skip _ c.arrived
  | save id =>
    simp only [step, save]
    split
    · rename_i node up
      split
      · rename_i p failed
        obtain rfl := save_error failed
        exact .halt _ id node .accepted _ up (.inr ⟨by simp, .inl ⟨rfl, rfl, rfl⟩⟩)
      · rename_i storage saved
        exact .save id node storage none up saved
      · rename_i storage err saved
        exact .save id node storage (some err) up saved
    · exact .skip _ c.arrived
  | send id =>
    simp only [step, send]
    split
    · rename_i node up
      exact .send id node up
    · exact .skip _ c.arrived
  | advance id =>
    simp only [step, advance]
    split
    · rename_i node up
      exact .advance id node _ up (run_cases node .idle .advance)
    · exact .skip _ c.arrived
  | compact id index =>
    simp only [step, compact]
    split
    · exact .skip _ c.arrived
    · rename_i node phase up
      split
      · rename_i p failed
        exact .halt _ id node phase _ up (.inr ⟨by simp, .inr ⟨index, rfl⟩⟩)
      · rename_i storage err compacted
        exact .compact id index node phase storage err up compacted
  | crash id =>
    simp only [step, crash]
    split
    · exact .skip _ c.arrived
    · rename_i node phase up
      exact .halt _ id node phase _ up (.inl rfl)
  | restart id rng =>
    simp only [step, restart]
    split
    · exact .skip _ c.arrived
    · rename_i cause storage down
      split
      · rename_i voter
        exact .restart id rng cause storage down voter
      · exact .skip _ c.arrived

def isRequest (m : Message) : Prop :=
  m.term = 0 ∧ (m.type = .msgProp ∨ m.type = .msgHup ∨ m.type = .msgTransferLeader ∨
    m.type = .msgReadIndex ∧ m.fromId = None)

/-- An event other than `Advance` calls `Step` at most once, with a packet for the
node or with a request of its host. -/
theorem calls_cases {c : Cluster} {e : ClusterEvent} {id : Nat} {arm : Node.Event} {node : Node}
    {call : Raft × Message} (aimed : c.target e = some (id, arm)) (ordinary : arm ≠ .advance)
    (inside : call ∈ node.stepCalls arm) :
    call.1 = node.r ∧
      ((∃ position p, e = .deliver position ∧ c.packets[position]? = some p ∧ p.msg.toId = id ∧
        call.2 = p.msg) ∨ isRequest call.2) := by
  cases e with
  | deliver position =>
    obtain ⟨p, found, same⟩ := Option.map_eq_some_iff.mp aimed
    cases same
    simp only [Node.stepCalls] at inside
    split at inside
    · cases inside
    · cases List.mem_singleton.mp inside
      exact ⟨rfl, .inl ⟨position, p, rfl, found, rfl, rfl⟩⟩
  | tick => cases aimed; cases inside
  | campaign id =>
    cases aimed
    cases List.mem_singleton.mp inside
    exact ⟨rfl, .inr (by simp [isRequest])⟩
  | propose id data =>
    cases aimed
    cases List.mem_singleton.mp inside
    exact ⟨rfl, .inr (by simp [isRequest])⟩
  | readIndex id ctx =>
    cases aimed
    cases List.mem_singleton.mp inside
    exact ⟨rfl, .inr (by simp [isRequest])⟩
  | transfer id x =>
    cases aimed
    cases List.mem_singleton.mp inside
    exact ⟨rfl, .inr (by simp [isRequest])⟩
  | advance id =>
    cases aimed
    exact absurd rfl ordinary
  | ready => cases aimed
  | save => cases aimed
  | send => cases aimed
  | compact => cases aimed
  | crash => cases aimed
  | restart => cases aimed

end Cluster

theorem packets_step (cfg : ClusterConfig) (c : Cluster) (e : ClusterEvent) :
    c.packets ⊆ (Cluster.step cfg c e).packets := by
  have stepped := Cluster.step_cases cfg c e
  generalize Cluster.step cfg c e = c' at stepped
  cases stepped <;> first | exact List.subset_append_left _ _ | exact List.Subset.refl _

theorem packets_exec (cfg : ClusterConfig) (c : Cluster) (events : List ClusterEvent) :
    c.packets ⊆ (Cluster.exec cfg c events).packets := by
  induction events generalizing c with
  | nil => exact List.Subset.refl _
  | cons e events ih => exact List.Subset.trans (packets_step cfg c e) (ih _)

theorem raft_eq_some {c : Cluster} {id : Nat} {r : Raft} (here : c.raft? id = some r) :
    ∃ node phase, c.procs id = .up node phase ∧ node.r = r := by
  unfold Cluster.raft? at here
  split at here
  · rename_i node phase up
    exact ⟨node, phase, up, Option.some.inj here⟩
  · cases here

end Kvgo

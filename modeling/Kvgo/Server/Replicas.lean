import Kvgo.Raft.Delivery
import Kvgo.Raft.StateMachine
import Kvgo.Server.Envelope

/-! A cluster of servers (`server.go`, `server/raft.go`): the host of each node hands the
committed entries to its server loop, which applies them to the key-value map and then lets
the storage compact up to the last one. -/

namespace Kvgo

/-! ### One member -/

namespace Member

/-- The committed entries of the `Ready` that the host has taken and not yet passed on. -/
def inHand (p : Member) : List Entry :=
  match p.proc with
  | .up _ .idle => []
  | .up node _ => node.rd.committedEntries
  | .down _ _ => []

/-- The host has passed on `taken` of what was delivered, and holds the rest unless the
process is down. -/
def Passes (taken : List Entry) (p : Member) : Prop :=
  match p.proc with
  | .up _ _ => taken ++ p.inHand = p.delivered
  | .down _ _ => taken <+: p.delivered

variable {p : Member} {taken : List Entry} {threshold a : Nat}

theorem inHand_idle {node : Node} (here : p.proc = .up node .idle) : p.inHand = [] := by
  unfold inHand
  rw [here]

theorem inHand_busy {node : Node} {phase : Phase} (here : p.proc = .up node phase) (busy : phase ≠ .idle) :
    p.inHand = node.rd.committedEntries := by
  unfold inHand
  rw [here]
  cases phase with
  | idle => exact absurd rfl busy
  | accepted | saved | sent | stopped => rfl

theorem Passes.up {node : Node} {phase : Phase} (passes : p.Passes taken) (here : p.proc = .up node phase) :
    taken ++ p.inHand = p.delivered := by
  unfold Passes at passes
  rwa [here] at passes

theorem passes_up {node : Node} {phase : Phase} (here : p.proc = .up node phase)
    (all : taken ++ p.inHand = p.delivered) : p.Passes taken := by
  unfold Passes
  rwa [here]

theorem Passes.isPrefix (passes : p.Passes taken) : taken <+: p.delivered := by
  unfold Passes at passes
  split at passes
  · exact ⟨_, passes⟩
  · exact passes

theorem passes_down {cause : Option Panic} {storage : MemStorage} (here : p.proc = .down cause storage)
    (front : taken <+: p.delivered) : p.Passes taken := by
  unfold Passes
  rwa [here]

/-- A `Ready` that is out stays as it is while the node works. -/
theorem run_input_committed {node node' : Node} {phase phase' : Phase} {arm : Node.Event}
    (kept : Node.Kept node phase) (ordinary : ¬ (arm = .accept ∨ arm = .advance))
    (plain : ∀ m, arm = .step m → Node.Plain m) (busy : phase ≠ .idle)
    (up : Cluster.run node phase arm = .up node' phase') :
    phase' = phase ∧ node'.rd.committedEntries = node.rd.committedEntries := by
  obtain ⟨same, mid, top, kept', _, ⟨committed, _⟩, _⟩ := run_input kept ordinary (plain_calls ordinary plain) up
  obtain ⟨_, out, _⟩ := kept'.arms.resolve_left (by simp [busy])
  rcases Cluster.loopTop_cases top with ⟨rfl, _⟩ | ⟨idle, _⟩
  · exact ⟨same, committed⟩
  · rw [out] at idle
    cases idle

theorem run_accept_committed {node node' : Node} {phase' : Phase} (kept : Node.Kept node .idle)
    (offered : node.readyc = true) (up : Cluster.run node .accepted .accept = .up node' phase') :
    phase' = .accepted ∧ node'.rd.committedEntries = node.rd.committedEntries := by
  have ran := Cluster.run_cases node .accepted .accept
  rw [up] at ran
  cases ran with
  | ok mid _ selected top =>
    obtain rfl := selected.of_accept offered
    obtain ⟨accepted, _⟩ := kept.accept offered
    obtain ⟨_, out, _⟩ := accepted.arms.resolve_left (by simp)
    rcases Cluster.loopTop_cases top with ⟨rfl, _⟩ | ⟨idle, _⟩
    · exact ⟨rfl, rfl⟩
    · rw [out] at idle
      cases idle

theorem Passes.hold {q : Member} (passes : p.Passes taken) {node node' : Node} {phase phase' : Phase}
    (here : p.proc = .up node phase) (there : q.proc = .up node' phase') (same : q.inHand = p.inHand)
    (delivered : q.delivered = p.delivered) : q.Passes taken := by
  refine passes_up there ?_
  rw [same, delivered]
  exact passes.up here

theorem Served.serves {node : Node} {phase : Phase} (served : p.Served a) (here : p.proc = .up node phase) :
    Serves a node phase p.delivered := by
  rwa [Served, here] at served

theorem Passes.input {arm : Node.Event} {node : Node} {phase : Phase} (passes : p.Passes taken)
    (served : p.Served a) (here : p.proc = .up node phase) (ordinary : ¬ (arm = .accept ∨ arm = .advance))
    (plain : ∀ m, arm = .step m → Node.Plain m) :
    Passes taken { p with proc := Cluster.run node phase arm } := by
  have kept := (served.serves here).kept
  cases run : Cluster.run node phase arm with
  | down cause storage => exact passes_down rfl passes.isPrefix
  | up node' phase' =>
    refine passes.hold here rfl ?_ rfl
    by_cases idle : phase = .idle
    · subst idle
      obtain ⟨rfl, _⟩ := run_input kept ordinary (plain_calls ordinary plain) run
      rw [inHand_idle rfl, inHand_idle here]
    · obtain ⟨rfl, committed⟩ := run_input_committed kept ordinary plain idle run
      rw [inHand_busy rfl idle, inHand_busy here idle, committed]

/-- What a `Ready` delivers is in the hand of the host. -/
theorem Passes.ready {node : Node} (passes : p.Passes taken) (served : p.Served a)
    (here : p.proc = .up node .idle) (offered : node.readyc = true) :
    Passes taken {
      proc := Cluster.run node .accepted .accept
      delivered := p.delivered ++ node.rd.committedEntries } := by
  cases run : Cluster.run node .accepted .accept with
  | down cause storage => exact passes_down rfl (passes.isPrefix.trans (List.prefix_append _ _))
  | up node' phase' =>
    obtain ⟨rfl, committed⟩ := run_accept_committed (served.serves here).kept offered run
    have all := passes.up here
    rw [inHand_idle here, List.append_nil] at all
    refine passes_up rfl ?_
    rw [inHand_busy rfl (by simp), committed, all]

theorem Passes.save {node : Node} (passes : p.Passes taken) (here : p.proc = .up node .accepted) :
    Passes taken { p with proc := Member.save node } := by
  have held := inHand_busy here (by simp)
  unfold Member.save
  split
  · exact passes_down rfl passes.isPrefix
  · exact passes.hold here rfl held.symm rfl
  · exact passes.hold here rfl held.symm rfl

theorem Passes.step {e : MemberEvent} (passes : p.Passes taken) (served : p.Served a)
    (ordinary : p.Ordinary a e) (going : e ≠ .advance) : (p.step threshold e).Passes taken := by
  cases here : p.proc with
  | down cause storage =>
    rw [show p.step threshold e = p by rw [Member.step, here]]
    exact passes
  | up node phase =>
    cases e with
    | input arm =>
      simp only [Member.step, here]
      split
      · exact passes
      · next input =>
        refine passes.input served here input fun m same => ?_
        subst same
        exact ordinary
    | ready =>
      simp only [Member.step, here]
      split
      · next taking =>
        obtain ⟨rfl, offered⟩ := taking
        exact passes.ready served here offered
      · exact passes
    | save =>
      simp only [Member.step, here]
      split
      · next accepted =>
        subst accepted
        exact passes.save here
      · exact passes
    | send =>
      simp only [Member.step, here]
      split
      · next saved =>
        subst saved
        exact passes.hold here rfl (inHand_busy here (by simp)).symm rfl
      · exact passes
    | advance => exact absurd rfl going
    | compact index =>
      simp only [Member.step, here, Member.compact]
      split
      · exact passes_down rfl passes.isPrefix
      · refine passes.hold here rfl ?_ rfl
        unfold inHand
        rw [here]
        cases phase <;> rfl

/-- The host passes on what it holds before it calls `Advance`. -/
theorem Passes.advance {node : Node} (passes : p.Passes taken) (served : p.Served a)
    (here : p.proc = .up node .sent) :
    (p.step threshold .advance).Passes (taken ++ node.rd.committedEntries) := by
  have all := passes.up here
  rw [inHand_busy here (by simp)] at all
  simp only [Member.step, here, if_true]
  cases run : Cluster.run node .idle .advance with
  | down cause storage => exact passes_down rfl ⟨[], by rw [all, List.append_nil]⟩
  | up node' phase' =>
    obtain ⟨rfl, _⟩ := run_advance (served.serves here).kept run
    refine passes_up rfl ?_
    rw [inHand_idle rfl, all, List.append_nil]

end Member

/-! ### The members of a cluster -/

namespace Cluster

def member (c : Cluster) (n : Nat) : Member where
  proc := c.procs n
  delivered := (c.delivered.filter fun d => d.1 = n).map Prod.snd

def isHosted : ClusterEvent → Bool
  | .compact _ _ | .crash _ | .restart _ _ => false
  | _ => true

def memberEvent (c : Cluster) (n : Nat) : ClusterEvent → Option MemberEvent
  | .deliver position => c.packets[position]?.bind fun packet =>
      if packet.msg.toId = n then some (.input (.step packet.msg)) else none
  | .tick id => if id = n then some (.input .tick) else none
  | .campaign id => if id = n then some (.input .campaign) else none
  | .propose id data => if id = n then some (.input (.propose data)) else none
  | .readIndex id ctx => if id = n then some (.input (.readIndex ctx)) else none
  | .transfer id target =>
    if id = n then some (.input (.step { type := .msgTransferLeader, fromId := target })) else none
  | .ready id => if id = n then some .ready else none
  | .save id => if id = n then some .save else none
  | .send id => if id = n then some .send else none
  | .advance id => if id = n then some .advance else none
  | .compact _ _ | .crash _ | .restart _ _ => none

variable {c : Cluster} {threshold : Nat}

theorem member_setProc (c : Cluster) (id n : Nat) (proc : Proc) : (c.setProc id proc).member n =
    if id = n then { c.member n with proc } else c.member n := by
  unfold member setProc
  split
  · next same =>
    subst same
    simp
  · next other => simp [Function.update_of_ne (Ne.symm other)]

theorem member_onNode (c : Cluster) (id n : Nat) {arm : Node.Event}
    (ordinary : ¬ (arm = .accept ∨ arm = .advance)) : (c.onNode id arm).member n =
      if id = n then (c.member n).step threshold (.input arm) else c.member n := by
  unfold onNode
  split
  · next cause storage down =>
    split
    · next same =>
      subst same
      rw [Member.step, show (c.member id).proc = c.procs id from rfl, down]
    · rfl
  · next node phase up =>
    rw [member_setProc]
    split
    · next same =>
      subst same
      rw [Member.step, show (c.member id).proc = c.procs id from rfl, up]
      simp only [if_neg ordinary]
    · rfl

theorem member_at {c' : Cluster} {id : Nat} {e : MemberEvent}
    (own : c'.member id = (c.member id).step threshold e)
    (others : ∀ n, n ≠ id → c'.member n = c.member n) (n : Nat) :
    c'.member n = if id = n then (c.member n).step threshold e else c.member n := by
  split
  · next same =>
    subst same
    exact own
  · next other => exact others n (Ne.symm other)

theorem member_ready (c : Cluster) (id n : Nat) : (c.ready id).member n =
    if id = n then (c.member n).step threshold .ready else c.member n := by
  refine member_at ?_ (fun n other => ?_) n
  · cases here : c.procs id with
    | down cause storage => simp [ready, Member.step, member, here]
    | up node phase =>
      cases phase with
      | idle =>
        cases offered : node.readyc <;>
          simp [ready, Member.step, member, here, setProc, offered, List.filter_append, List.filter_map,
            Function.comp_def]
      | accepted | saved | sent | stopped => simp [ready, Member.step, member, here]
  · cases here : c.procs id with
    | down cause storage => simp [ready, member, here]
    | up node phase =>
      cases phase with
      | idle =>
        cases offered : node.readyc <;>
          simp [ready, member, here, setProc, offered, other, Ne.symm other, List.filter_append,
            List.filter_map, Function.comp_def]
      | accepted | saved | sent | stopped => simp [ready, member, here]

theorem save_eq {node : Node} {id : Nat} (here : c.procs id = .up node .accepted) :
    c.save id = c.setProc id (Member.save node) := by
  unfold save Member.save
  rw [here]
  dsimp only
  split <;> simp_all only

theorem member_save (c : Cluster) (id n : Nat) : (c.save id).member n =
    if id = n then (c.member n).step threshold .save else c.member n := by
  cases here : c.procs id with
  | down cause storage => exact member_at (by simp [save, Member.step, member, here]) (by simp [save, here]) n
  | up node phase =>
    cases phase with
    | accepted =>
      rw [save_eq here]
      refine member_at ?_ (fun n other => ?_) n
      · simp [Member.step, member, here, setProc]
      · simp [member, setProc, other]
    | idle | saved | sent | stopped =>
      exact member_at (by simp [save, Member.step, member, here]) (by simp [save, here]) n

theorem member_send (c : Cluster) (id n : Nat) : (c.send id).member n =
    if id = n then (c.member n).step threshold .send else c.member n := by
  cases here : c.procs id with
  | down cause storage => exact member_at (by simp [send, Member.step, member, here]) (by simp [send, here]) n
  | up node phase =>
    cases phase with
    | saved =>
      refine member_at ?_ (fun n other => ?_) n
      · simp [send, Member.step, member, here, setProc]
      · simp [send, member, here, setProc, other]
    | idle | accepted | sent | stopped =>
      exact member_at (by simp [send, Member.step, member, here]) (by simp [send, here]) n

theorem member_advance (c : Cluster) (id n : Nat) : (c.advance id).member n =
    if id = n then (c.member n).step threshold .advance else c.member n := by
  cases here : c.procs id with
  | down cause storage =>
    exact member_at (by simp [advance, Member.step, member, here]) (by simp [advance, here]) n
  | up node phase =>
    cases phase with
    | sent =>
      refine member_at ?_ (fun n other => ?_) n
      · simp [advance, Member.step, member, here, setProc]
      · simp [advance, member, here, setProc, other]
    | idle | accepted | saved | stopped =>
      exact member_at (by simp [advance, Member.step, member, here]) (by simp [advance, here]) n

/-- A step of the cluster is a step of the process it aims at. -/
theorem member_step (threshold : Nat) (cfg : ClusterConfig) (c : Cluster) (n : Nat) {e : ClusterEvent}
    (hosted : isHosted e = true) :
    (c.step cfg e).member n = (c.memberEvent n e).elim (c.member n) ((c.member n).step threshold) := by
  have split : ∀ (id : Nat) (e' : MemberEvent),
      (if id = n then (c.member n).step threshold e' else c.member n) =
        (if id = n then some e' else none).elim (c.member n) ((c.member n).step threshold) := by
    intro id e'
    by_cases same : id = n <;> simp [same]
  cases e with
  | deliver position =>
    simp only [step, deliver, memberEvent]
    cases found : c.packets[position]? with
    | none => rfl
    | some packet =>
      exact (member_onNode _ _ n (by simp)).trans (split _ _)
  | tick id => exact (member_onNode c id n (by simp)).trans (split _ _)
  | campaign id => exact (member_onNode c id n (by simp)).trans (split _ _)
  | propose id data => exact (member_onNode c id n (by simp)).trans (split _ _)
  | readIndex id ctx => exact (member_onNode c id n (by simp)).trans (split _ _)
  | transfer id target => exact (member_onNode c id n (by simp)).trans (split _ _)
  | ready id => exact (member_ready c id n).trans (split _ _)
  | save id => exact (member_save c id n).trans (split _ _)
  | send id => exact (member_send c id n).trans (split _ _)
  | advance id => exact (member_advance c id n).trans (split _ _)
  | compact id index => cases hosted
  | crash id => cases hosted
  | restart id rng => cases hosted

theorem onNode_delivered (c : Cluster) (id : Nat) (arm : Node.Event) :
    (c.onNode id arm).delivered = c.delivered := by
  unfold onNode
  split <;> rfl

theorem step_delivered {cfg : ClusterConfig} {e : ClusterEvent} (hosted : isHosted e = true)
    (other : ∀ id, e ≠ .ready id) : (c.step cfg e).delivered = c.delivered := by
  cases e with
  | deliver position =>
    simp only [step, deliver]
    split
    · rfl
    · exact onNode_delivered _ _ _
  | tick id | campaign id | propose id data | readIndex id ctx | transfer id target =>
    exact onNode_delivered c _ _
  | ready id => exact absurd rfl (other id)
  | save id =>
    simp only [step, save]
    split
    · split <;> rfl
    · rfl
  | send id =>
    simp only [step, send]
    split <;> rfl
  | advance id =>
    simp only [step, advance]
    split <;> rfl
  | compact id index | crash id | restart id rng => cases hosted

theorem init_member (cfg : ClusterConfig) (rng : Nat → Nat → Nat) (n : Nat) :
    ((init cfg rng).member n).Served 0 ∧ ((init cfg rng).member n).Passes [] := by
  by_cases voter : n ∈ cfg.voters
  · have boots : (init cfg rng).member n = Member.start (nodeConfig cfg n {} (rng n)) := by
      unfold member init
      simp only [if_pos voter]
      rfl
    rw [boots]
    cases made : Raft.newRaft (nodeConfig cfg n {} (rng n)) with
    | error p =>
      have down : Member.start (nodeConfig cfg n {} (rng n)) = { proc := .down (some p) {} } := by
        simp only [Member.start, Node.setupNode, made]
        rfl
      rw [down]
      exact ⟨fun _ _ here => by simp at here, List.nil_prefix⟩
    | ok r =>
      have served := Member.start_served sound_empty made
      have zero : r.raftLog.applied = 0 := by
        rw [(Raft.newRaft_log made).1]
        rfl
      rw [zero] at served
      refine ⟨served, ?_⟩
      cases up : (Member.start (nodeConfig cfg n {} (rng n))).proc with
      | down cause storage => exact Member.passes_down up List.nil_prefix
      | up node phase =>
        obtain ⟨rfl, _⟩ := boot_up up
        refine Member.passes_up up ?_
        rw [Member.inHand_idle up]
        rfl
  · have down : (init cfg rng).member n = { proc := .down none {} } := by
      unfold member init
      simp only [if_neg voter]
      rfl
    rw [down]
    exact ⟨fun _ _ here => by simp at here, List.nil_prefix⟩

end Cluster

namespace Server

structure ToApply where
  data : List Bytes
  appliedThru : Nat
  deriving DecidableEq, Repr

def toApply (committed : List Entry) : Option ToApply :=
  committed.getLast?.map fun last => { data := committed.map Entry.data, appliedThru := last.index }

abbrev Store := Bytes → Option Bytes

def applyRaw (sm : Store) (raw : Bytes) : Store :=
  if raw = [] then sm
  else
    match unmarshalEnvelope raw with
    | none => sm
    | some (_, payload) =>
      match decodeRequest payload with
      | none => sm
      | some req => if req.cmd = cmdPut then Function.update sm req.key (some req.value) else sm

def applyBatch (sm : Store) (data : List Bytes) : Store := data.foldl applyRaw sm

structure Replicas where
  cluster : Cluster
  /-- The channel from a host to its server loop; it has room for one batch. -/
  applyc : Nat → Option ToApply := fun _ => none
  sm : Nat → Store := fun _ _ => none
  /-- How far the last batch went that the loop has processed. -/
  processed : Nat → Option Nat := fun _ => none

inductive ReplicaEvent where
  | raft (e : ClusterEvent)
  /-- The server loop takes a batch from its channel. -/
  | apply (id : Nat)

def ReplicaEvent.isCrashFree : ReplicaEvent → Bool
  | .raft e => Cluster.isHosted e
  | .apply _ => true

namespace Replicas

def init (cfg : ClusterConfig) (rng : Nat → Nat → Nat) : Replicas where
  cluster := Cluster.init cfg rng

/-- The end of `handleBatch` and the call of `Advance` behind it. The host waits while the
channel is full. -/
def advance (r : Replicas) (id : Nat) : Replicas :=
  match r.cluster.procs id with
  | .up node .sent =>
    match toApply node.rd.committedEntries with
    | none => { r with cluster := r.cluster.advance id }
    | some ap =>
      match r.applyc id with
      | some _ => r
      | none =>
        { r with cluster := r.cluster.advance id, applyc := Function.update r.applyc id (some ap) }
  | _ => r

/-- One turn of `run` with a batch: `applyBatch` and `MaybeCompact`. -/
def apply (threshold : Nat) (r : Replicas) (id : Nat) : Replicas :=
  match r.applyc id, r.cluster.procs id with
  | some ap, .up node phase =>
    { cluster :=
        if 0 < ap.appliedThru then
          r.cluster.setProc id (Member.compact threshold node phase ap.appliedThru)
        else r.cluster
      applyc := Function.update r.applyc id none
      sm := Function.update r.sm id (applyBatch (r.sm id) ap.data)
      processed := Function.update r.processed id (some ap.appliedThru) }
  | _, _ => r

def step (cfg : ClusterConfig) (threshold : Nat) (r : Replicas) : ReplicaEvent → Replicas
  | .raft (.advance id) => r.advance id
  | .raft e => { r with cluster := r.cluster.step cfg e }
  | .apply id => r.apply threshold id

def exec (cfg : ClusterConfig) (threshold : Nat) (rng : Nat → Nat → Nat) (events : List ReplicaEvent) :
    Replicas :=
  Runs.exec (step cfg threshold) (init cfg rng) events

/-- The logs of committed entries from index 1 to `i`: every entry was delivered by some node. -/
def CommittedLog (c : Cluster) (i : Nat) (log : List Entry) : Prop :=
  log.length = i ∧ IndexedFrom 1 log ∧ ∀ e ∈ log, e ∈ c.delivered.map Prod.snd

instance (c : Cluster) (i : Nat) (log : List Entry) : Decidable (CommittedLog c i log) := by
  unfold CommittedLog; infer_instance

/-- Every map is what the committed entries make of an empty one, up to the last index that the
server loop has processed. -/
def Consistent (r : Replicas) : Prop :=
  ∀ n i, r.processed n = some i → (∃ log, CommittedLog r.cluster i log) ∧
    ∀ log, CommittedLog r.cluster i log → r.sm n = applyBatch (fun _ => none) (log.map Entry.data)

/-- No snapshot arrives, appended entries are consecutive, and no `Ready` contradicts what
another node delivered. -/
def Ordinary (r : Replicas) : ReplicaEvent → Prop
  | .raft (.deliver position) => ∀ packet ∈ r.cluster.packets[position]?, Node.Plain packet.msg
  | .raft (.ready id) => StateMachineSafe (r.cluster.ready id)
  | _ => True

instance (r : Replicas) : (e : ReplicaEvent) → Decidable (r.Ordinary e)
  | .raft (.deliver position) =>
    inferInstanceAs (Decidable (∀ packet ∈ r.cluster.packets[position]?, Node.Plain packet.msg))
  | .raft (.ready id) => inferInstanceAs (Decidable (StateMachineSafe (r.cluster.ready id)))
  | .raft (.tick _) | .raft (.campaign _) | .raft (.propose _ _) | .raft (.readIndex _ _)
  | .raft (.transfer _ _) | .raft (.save _) | .raft (.send _) | .raft (.advance _) | .raft (.compact _ _)
  | .raft (.crash _) | .raft (.restart _ _) | .apply _ => isTrue trivial

/-! ### What the loop was fed with -/

/-- The entries that the loop of a server has applied, and those in its channel. -/
structure Feeds (r : Replicas) (n : Nat) (done waiting : List Entry) : Prop where
  sm : r.sm n = applyBatch (fun _ => none) (done.map Entry.data)
  processed : r.processed n = done.getLast?.map Entry.index
  applyc : r.applyc n = toApply waiting
  passes : (r.cluster.member n).Passes (done ++ waiting)
  served : (r.cluster.member n).Served 0

section Keep

variable {cfg : ClusterConfig} {threshold n : Nat} {r : Replicas} {done waiting : List Entry}

theorem toApply_eq_none {committed : List Entry} (none : toApply committed = .none) : committed = [] := by
  simpa [toApply] using none

theorem Feeds.frame {r' : Replicas} (feeds : Feeds r n done waiting)
    (member : r'.cluster.member n = r.cluster.member n) (applyc : r'.applyc n = r.applyc n)
    (sm : r'.sm n = r.sm n) (processed : r'.processed n = r.processed n) : Feeds r' n done waiting where
  sm := sm.trans feeds.sm
  processed := processed.trans feeds.processed
  applyc := applyc.trans feeds.applyc
  passes := by rw [member]; exact feeds.passes
  served := by rw [member]; exact feeds.served

theorem Ordinary.member {e : ClusterEvent} {e' : MemberEvent} (ordinary : r.Ordinary (.raft e))
    (event : r.cluster.memberEvent n e = some e') : (r.cluster.member n).Ordinary 0 e' := by
  cases e with
  | deliver position =>
    simp only [Cluster.memberEvent, Option.bind_eq_some_iff] at event
    obtain ⟨packet, found, here⟩ := event
    split at here
    · cases here
      exact ordinary packet found
    · cases here
  | transfer id target =>
    simp only [Cluster.memberEvent] at event
    split at event
    · cases event
      exact ⟨(fun kind => by cases kind), by simp⟩
    · cases event
  | tick id | campaign id | propose id data | readIndex id ctx | ready id | save id | send id | advance id =>
    simp only [Cluster.memberEvent] at event
    split at event
    · cases event
      trivial
    · cases event
  | compact id index | crash id | restart id rng => cases event

/-- An event of the cluster other than the call of `Advance`. -/
theorem Feeds.raft (feeds : Feeds r n done waiting) {e : ClusterEvent} (hosted : Cluster.isHosted e = true)
    (ordinary : r.Ordinary (.raft e)) (going : ∀ id, e ≠ .advance id) :
    Feeds { r with cluster := r.cluster.step cfg e } n done waiting := by
  have moved := Cluster.member_step 0 cfg r.cluster n hosted
  cases event : r.cluster.memberEvent n e with
  | none =>
    rw [event] at moved
    exact feeds.frame moved rfl rfl rfl
  | some e' =>
    rw [event] at moved
    have plain := Ordinary.member ordinary event
    have quiet : e' ≠ .advance := by
      rintro rfl
      cases e <;> simp [Cluster.memberEvent, Option.bind_eq_some_iff] at event
      exact going _ rfl
    refine ⟨feeds.sm, feeds.processed, feeds.applyc, ?_, ?_⟩
    · rw [show (r.cluster.step cfg e).member n = _ from moved]
      exact feeds.passes.step feeds.served plain quiet
    · rw [show (r.cluster.step cfg e).member n = _ from moved]
      exact feeds.served.step plain

theorem Feeds.advance (feeds : Feeds r n done waiting) (id : Nat) :
    ∃ done waiting, Feeds (r.advance id) n done waiting := by
  have moved : (r.cluster.advance id).member n =
      if id = n then (r.cluster.member n).step 0 .advance else r.cluster.member n :=
    Cluster.member_advance ..
  by_cases own : id = n
  · subst own
    rw [if_pos rfl] at moved
    unfold Replicas.advance
    split
    · next node up =>
      have passed : ((r.cluster.member id).step 0 .advance).Passes _ := feeds.passes.advance feeds.served up
      have served : ((r.cluster.member id).step 0 .advance).Served 0 := feeds.served.step trivial
      split
      · next nothing =>
        rw [toApply_eq_none nothing, List.append_nil] at passed
        exact ⟨done, waiting, feeds.sm, feeds.processed, feeds.applyc, moved ▸ passed, moved ▸ served⟩
      · next ap batch =>
        split
        · exact ⟨done, waiting, feeds⟩
        · next room =>
          rw [feeds.applyc] at room
          rw [toApply_eq_none room, List.append_nil] at passed
          refine ⟨done, node.rd.committedEntries, feeds.sm, feeds.processed, ?_, moved ▸ passed, moved ▸ served⟩
          rw [batch]
          exact Function.update_self ..
    · exact ⟨done, waiting, feeds⟩
  · rw [if_neg own] at moved
    refine ⟨done, waiting, ?_⟩
    unfold Replicas.advance
    split
    · split
      · exact feeds.frame moved rfl rfl rfl
      · split
        · exact feeds
        · exact feeds.frame moved (Function.update_of_ne (Ne.symm own) ..) rfl rfl
    · exact feeds

theorem Feeds.indexed (feeds : Feeds r n done waiting) : IndexedFrom 1 (done ++ waiting) :=
  feeds.served.indexed.of_isPrefix feeds.passes.isPrefix

theorem Feeds.apply (feeds : Feeds r n done waiting) (id : Nat) :
    ∃ done waiting, Feeds (r.apply threshold id) n done waiting := by
  by_cases own : id = n
  · subst own
    unfold Replicas.apply
    split
    · next ap node phase batch up =>
      rw [feeds.applyc] at batch
      obtain ⟨last, ends, rfl⟩ := Option.map_eq_some_iff.mp batch
      have final : (done ++ waiting).getLast? = some last := by rw [List.getLast?_append, ends]; rfl
      have place := feeds.indexed.last final
      have bound := feeds.passes.isPrefix.length_le
      have moved : (r.cluster.setProc id (Member.compact threshold node phase last.index)).member id =
          (r.cluster.member id).step threshold (.compact last.index) := by
        rw [Cluster.member_setProc, if_pos rfl, Member.step, show (r.cluster.member id).proc = _ from up]
      have ordinary : (r.cluster.member id).Ordinary 0 (.compact last.index) := by
        show last.index ≤ 0 + _
        omega
      have passed : ((r.cluster.member id).step threshold (.compact last.index)).Passes _ :=
        feeds.passes.step feeds.served ordinary (by simp)
      have served : ((r.cluster.member id).step threshold (.compact last.index)).Served 0 :=
        feeds.served.step ordinary
      have positive : 0 < last.index := by
        have := List.length_pos_of_ne_nil (List.ne_nil_of_mem (List.mem_of_getLast? final))
        omega
      refine ⟨done ++ waiting, [], ?_, ?_, Function.update_self .., ?_, ?_⟩
      · show Function.update _ _ _ _ = _
        rw [Function.update_self, feeds.sm, List.map_append, applyBatch, applyBatch, applyBatch,
          List.foldl_append]
      · show Function.update _ _ _ _ = _
        rw [Function.update_self, final]
        rfl
      · rw [List.append_nil]
        simp only [if_pos positive]
        rw [moved]
        exact passed
      · simp only [if_pos positive]
        rw [moved]
        exact served
    · exact ⟨done, waiting, feeds⟩
  · refine ⟨done, waiting, ?_⟩
    unfold Replicas.apply
    split
    · next ap node phase batch up =>
      refine feeds.frame ?_ (Function.update_of_ne (Ne.symm own) ..) (Function.update_of_ne (Ne.symm own) ..)
        (Function.update_of_ne (Ne.symm own) ..)
      dsimp only
      split
      · rw [Cluster.member_setProc, if_neg own]
      · rfl
    · exact feeds

theorem Feeds.step (feeds : Feeds r n done waiting) {e : ReplicaEvent} (crashFree : e.isCrashFree = true)
    (ordinary : r.Ordinary e) : ∃ done waiting, Feeds (r.step cfg threshold e) n done waiting := by
  cases e with
  | apply id => exact feeds.apply id
  | raft e =>
    by_cases advancing : ∃ id, e = .advance id
    · obtain ⟨id, rfl⟩ := advancing
      exact feeds.advance id
    · have going : ∀ id, e ≠ .advance id := fun id same => advancing ⟨id, same⟩
      rw [show r.step cfg threshold (.raft e) = { r with cluster := r.cluster.step cfg e } by
        cases e <;> first | rfl | exact absurd rfl (going _)]
      exact ⟨done, waiting, feeds.raft crashFree ordinary going⟩

theorem Feeds.init (cfg : ClusterConfig) (rng : Nat → Nat → Nat) (n : Nat) :
    Feeds (Replicas.init cfg rng) n [] [] := by
  obtain ⟨served, passes⟩ := Cluster.init_member cfg rng n
  exact ⟨rfl, rfl, rfl, passes, served⟩

/-- Only a `Ready` delivers. -/
theorem step_delivered {e : ReplicaEvent} (crashFree : e.isCrashFree = true)
    (other : ∀ id, e ≠ .raft (.ready id)) :
    (r.step cfg threshold e).cluster.delivered = r.cluster.delivered := by
  cases e with
  | apply id =>
    simp only [step, Replicas.apply]
    split
    · dsimp only
      split <;> rfl
    · rfl
  | raft e =>
    have cluster : (r.cluster.step cfg e).delivered = r.cluster.delivered :=
      Cluster.step_delivered crashFree fun id same => other id (by rw [same])
    cases e with
    | advance id =>
      simp only [step, Replicas.advance]
      split
      · split
        · exact cluster
        · split
          · rfl
          · exact cluster
      · rfl
    | _ => exact cluster

theorem step_safe (safe : StateMachineSafe r.cluster) {e : ReplicaEvent} (crashFree : e.isCrashFree = true)
    (ordinary : r.Ordinary e) : StateMachineSafe (r.step cfg threshold e).cluster := by
  by_cases taking : ∃ id, e = .raft (.ready id)
  · obtain ⟨id, rfl⟩ := taking
    exact ordinary
  · unfold StateMachineSafe
    rw [step_delivered crashFree fun id same => taking ⟨id, same⟩]
    exact safe

end Keep

theorem Feeds.consistent {r : Replicas} (feeds : ∀ n, ∃ done waiting, Feeds r n done waiting)
    (safe : StateMachineSafe r.cluster) : r.Consistent := by
  intro n i processed
  obtain ⟨done, waiting, feeds⟩ := feeds n
  rw [feeds.processed] at processed
  obtain ⟨last, ends, rfl⟩ := Option.map_eq_some_iff.mp processed
  have indexed : IndexedFrom 1 done := feeds.indexed.of_isPrefix (List.prefix_append _ _)
  have length : done.length = last.index := by
    have := indexed.last ends
    omega
  have delivered : ∀ e ∈ done, e ∈ r.cluster.delivered.map Prod.snd := by
    intro e inside
    have there := feeds.passes.isPrefix.subset (List.mem_append_left _ inside)
    obtain ⟨d, here, rfl⟩ := List.mem_map.mp there
    exact List.mem_map_of_mem (List.mem_of_mem_filter here)
  refine ⟨⟨done, length, indexed, delivered⟩, fun log committed => ?_⟩
  obtain ⟨size, places, sources⟩ := committed
  rw [feeds.sm]
  congr 1
  -- two entries delivered at one index carry the same data
  refine List.ext_getElem (by simp [length, size]) fun k low high => ?_
  rw [List.length_map] at low high
  rw [List.getElem_map, List.getElem_map]
  obtain ⟨d, first, same⟩ := List.mem_map.mp (delivered _ (List.getElem_mem low))
  obtain ⟨d', second, same'⟩ := List.mem_map.mp (sources _ (List.getElem_mem high))
  have agree := safe d first d' second (by
    rw [same, same', indexed k _ (List.getElem?_eq_getElem low), places k _ (List.getElem?_eq_getElem high)])
  rw [← same, ← same']
  exact agree.2

/-- In a run without crashes in which no snapshot is sent to a node and no two nodes deliver
different entries at an index, every map is the committed log up to the last processed index. -/
theorem replica_matches_log (cfg : ClusterConfig) (threshold : Nat) (rng : Nat → Nat → Nat)
    (events : List ReplicaEvent) (crashFree : ∀ e ∈ events, e.isCrashFree = true)
    (ordinary : Runs.Along (step cfg threshold) Ordinary (init cfg rng) events) :
    (exec cfg threshold rng events).Consistent := by
  have kept : (∀ n, ∃ done waiting, Feeds (exec cfg threshold rng events) n done waiting) ∧
      StateMachineSafe (exec cfg threshold rng events).cluster := by
    refine Runs.invariant (step cfg threshold) (fun r => (∀ n, ∃ done waiting, Feeds r n done waiting) ∧
      StateMachineSafe r.cluster) ?_ ?_ (Runs.along_and _ crashFree ordinary)
    · rintro r e ⟨feeds, safe⟩ ⟨free, ordinary⟩
      refine ⟨fun n => ?_, step_safe safe free ordinary⟩
      obtain ⟨done, waiting, feeds⟩ := feeds n
      exact feeds.step free ordinary
    · exact ⟨fun n => ⟨[], [], Feeds.init cfg rng n⟩, fun d inside => by cases inside⟩
  exact Feeds.consistent kept.1 kept.2

def putData (id : Nat) (key value : UInt8) : Bytes :=
  marshalEnvelope id ((encodeRequest { cmd := cmdPut, key := [key], value := [value] }).getD [])

def hosted (events : List (List ClusterEvent)) : List ReplicaEvent := events.flatten.map .raft

def startOf2 : List ReplicaEvent :=
  hosted [firstElection, [.deliver 6], Cluster.round 1, [.deliver 8], Cluster.round 2, [.deliver 7],
    Cluster.round 3, [.deliver 9], Cluster.round 2] ++ [.apply 2]

def putWith3 : List ReplicaEvent :=
  startOf2 ++ hosted [[.propose 2 (putData 1 97 1)], Cluster.round 2, [.deliver 11], Cluster.round 3,
    [.deliver 12], Cluster.round 2] ++ [.apply 2]

theorem putWith3_consistent :
    (exec threeNodes 1 (fun _ _ => 0) putWith3).processed 2 = some 2 ∧
      (exec threeNodes 1 (fun _ _ => 0) putWith3).sm 2 = applyBatch (fun _ => none) [[], putData 1 97 1] :=
  ⟨by decide +kernel, (replica_matches_log threeNodes 1 (fun _ _ => 0) putWith3 (by decide +kernel)
    (by decide +kernel) 2 2 (by decide +kernel)).2 [⟨1, 1, []⟩, ⟨2, 1, putData 1 97 1⟩] (by decide +kernel)⟩

/-- The next append finds the entry before it compacted, and a snapshot is sent to node 1, which
carries no data. Node 3 is then elected with the vote of node 1 and sends it what follows. -/
def snapshotTo1 : List ReplicaEvent :=
  putWith3 ++ hosted [[.propose 2 (putData 2 98 2)], Cluster.round 2, [.deliver 13], Cluster.round 1] ++
    .apply 3 :: hosted [[.deliver 14], Cluster.round 3] ++
    .apply 3 :: hosted [[.campaign 3], Cluster.round 3, [.deliver 16], Cluster.round 1, [.deliver 18],
      Cluster.round 3, [.deliver 19], Cluster.round 1, [.deliver 21], Cluster.round 3, [.deliver 22],
      Cluster.round 1, [.deliver 24], Cluster.round 3, [.propose 3 []], Cluster.round 3, [.deliver 25],
      Cluster.round 1, [.deliver 27], Cluster.round 3, [.tick 3], Cluster.round 3, [.deliver 28],
      Cluster.round 1] ++ [.apply 1]

theorem snapshotTo1_misses_put : (∀ e ∈ snapshotTo1, e.isCrashFree = true) ∧
    (exec threeNodes 1 (fun _ _ => 0) snapshotTo1).processed 1 = some 5 ∧
    ¬ (exec threeNodes 1 (fun _ _ => 0) snapshotTo1).Consistent := by
  have processed : (exec threeNodes 1 (fun _ _ => 0) snapshotTo1).processed 1 = some 5 := by decide +kernel
  refine ⟨by decide +kernel, processed, fun consistent => ?_⟩
  have equal := (consistent 1 5 processed).2 [⟨1, 1, []⟩, ⟨2, 1, putData 1 97 1⟩, ⟨3, 1, putData 2 98 2⟩,
    ⟨4, 2, []⟩, ⟨5, 2, []⟩] (by decide +kernel)
  exact absurd (congrFun equal [97]) (by decide +kernel)

end Replicas

end Server

end Kvgo

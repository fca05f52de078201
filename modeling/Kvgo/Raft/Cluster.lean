import Kvgo.Lib.Runs
import Kvgo.Raft.Node

/-! A cluster of nodes, each driven by its host (`server/raft.go`): the host takes
a `Ready`, saves it, hands its messages to the transport and calls `Advance`.
The transport keeps every packet it was ever handed, so that a packet may arrive
late, out of order, several times or never. -/

namespace Kvgo

structure ClusterConfig where
  voters : List Nat
  electionTick : Nat
  heartbeatTick : Nat
  nodup : voters.Nodup
  nonzero : None ∉ voters
  ticks : 0 < heartbeatTick ∧ heartbeatTick < electionTick

def threeNodes : ClusterConfig where
  voters := [1, 2, 3]
  electionTick := 2
  heartbeatTick := 1
  nodup := by decide
  nonzero := by decide
  ticks := by decide

/-- How far the host is with the `Ready` it took. -/
inductive Phase where
  | idle
  | accepted
  | saved
  | sent
  /-- `handleBatch` returned an error, so the host takes no further `Ready`. -/
  | stopped
  deriving DecidableEq, Repr

inductive Proc where
  | up (node : Node) (phase : Phase)
  | down (cause : Option Panic) (storage : MemStorage)

/-- A message handed to the link from `src` to `msg.toId`. -/
structure Packet where
  src : Nat
  msg : Message
  deriving DecidableEq, Repr

structure Cluster where
  procs : Nat → Proc
  packets : List Packet := []
  /-- Positions in `packets` that were delivered, in order. -/
  arrived : List Nat := []
  /-- Entries that a node delivered in `Ready.CommittedEntries`. -/
  delivered : List (Nat × Entry) := []

inductive ClusterEvent where
  /-- The packet at a position of the transport reaches its destination. -/
  | deliver (position : Nat)
  | tick (id : Nat)
  | campaign (id : Nat)
  | propose (id : Nat) (data : Bytes)
  | readIndex (id : Nat) (ctx : Bytes)
  /-- An operator asks a node to hand leadership to `target`. -/
  | transfer (id target : Nat)
  | ready (id : Nat)
  | save (id : Nat)
  | send (id : Nat)
  | advance (id : Nat)
  | compact (id index : Nat)
  | crash (id : Nat)
  | restart (id : Nat) (rng : Nat → Nat)

namespace Cluster

def nodeConfig (cfg : ClusterConfig) (id : Nat) (storage : MemStorage) (rng : Nat → Nat) :
    Config where
  id := id
  peers := cfg.voters.filter (fun v => decide (v ≠ id))
  storage := storage
  applied := storage.snap.lastIncludedIndex
  electionTick := cfg.electionTick
  heartbeatTick := cfg.heartbeatTick
  rng := rng

def boot (cfg : ClusterConfig) (id : Nat) (storage : MemStorage) (rng : Nat → Nat) : Proc :=
  match Node.setupNode (nodeConfig cfg id storage rng) with
  | .error p => .down (some p) storage
  | .ok node =>
    match node.loopTop with
    | .error p => .down (some p) storage
    | .ok node => .up node .idle

def init (cfg : ClusterConfig) (rng : Nat → Nat → Nat) : Cluster where
  procs := fun id => if id ∈ cfg.voters then boot cfg id {} (rng id) else .down none {}

def setProc (c : Cluster) (id : Nat) (p : Proc) : Cluster :=
  { c with procs := Function.update c.procs id p }

/-- One arm of a node's `select` and the head of its loop. A panic takes the process down. -/
def run (node : Node) (phase : Phase) (e : Node.Event) : Proc :=
  match node.select e with
  | .error p => .down (some p) node.r.raftLog.storage
  | .ok (node, _) =>
    match node.loopTop with
    | .error p => .down (some p) node.r.raftLog.storage
    | .ok node => .up node phase

def onNode (c : Cluster) (id : Nat) (e : Node.Event) : Cluster :=
  match c.procs id with
  | .down _ _ => c
  | .up node phase => c.setProc id (run node phase e)

def deliver (c : Cluster) (position : Nat) : Cluster :=
  match c.packets[position]? with
  | none => c
  | some packet =>
    { c with arrived := c.arrived ++ [position] }.onNode packet.msg.toId (.step packet.msg)

def ready (c : Cluster) (id : Nat) : Cluster :=
  match c.procs id with
  | .up node .idle =>
    if node.readyc then
      { c with delivered := c.delivered ++ node.rd.committedEntries.map (id, ·) }.setProc id
        (run node .accepted .accept)
    else c
  | _ => c

def withStorage (node : Node) (storage : MemStorage) : Node :=
  { node with r := { node.r with raftLog := { node.r.raftLog with storage } } }

def save (c : Cluster) (id : Nat) : Cluster :=
  match c.procs id with
  | .up node .accepted =>
    match node.r.raftLog.storage.save node.rd.entries node.rd.hardState with
    | .error p => c.setProc id (.down (some p) node.r.raftLog.storage)
    | .ok (storage, none) => c.setProc id (.up (withStorage node storage) .saved)
    | .ok (storage, some _) => c.setProc id (.up (withStorage node storage) .stopped)
  | _ => c

def send (c : Cluster) (id : Nat) : Cluster :=
  match c.procs id with
  | .up node .saved =>
    { c with packets := c.packets ++ node.rd.messages.map (Packet.mk id) }.setProc id
      (.up node .sent)
  | _ => c

def advance (c : Cluster) (id : Nat) : Cluster :=
  match c.procs id with
  | .up node .sent => c.setProc id (run node .idle .advance)
  | _ => c

def compact (c : Cluster) (id index : Nat) : Cluster :=
  match c.procs id with
  | .down _ _ => c
  | .up node phase =>
    match node.r.raftLog.storage.compactLocked index with
    | .error p => c.setProc id (.down (some p) node.r.raftLog.storage)
    | .ok (storage, _) => c.setProc id (.up (withStorage node storage) phase)

def crash (c : Cluster) (id : Nat) : Cluster :=
  match c.procs id with
  | .down _ _ => c
  | .up node _ => c.setProc id (.down none node.r.raftLog.storage)

def restart (cfg : ClusterConfig) (c : Cluster) (id : Nat) (rng : Nat → Nat) : Cluster :=
  match c.procs id with
  | .up _ _ => c
  | .down _ storage => if id ∈ cfg.voters then c.setProc id (boot cfg id storage rng) else c

def step (cfg : ClusterConfig) (c : Cluster) : ClusterEvent → Cluster
  | .deliver position => c.deliver position
  | .tick id => c.onNode id .tick
  | .campaign id => c.onNode id .campaign
  | .propose id data => c.onNode id (.propose data)
  | .readIndex id ctx => c.onNode id (.readIndex ctx)
  | .transfer id target => c.onNode id (.step { type := .msgTransferLeader, fromId := target })
  | .ready id => c.ready id
  | .save id => c.save id
  | .send id => c.send id
  | .advance id => c.advance id
  | .compact id index => c.compact id index
  | .crash id => c.crash id
  | .restart id rng => c.restart cfg id rng

def exec (cfg : ClusterConfig) (c : Cluster) (events : List ClusterEvent) : Cluster :=
  Runs.exec (step cfg) c events

def round (id : Nat) : List ClusterEvent := [.ready id, .save id, .send id, .advance id]

def raft? (c : Cluster) (id : Nat) : Option Raft :=
  match c.procs id with
  | .up node _ => some node.r
  | .down _ _ => none

end Cluster

def firstElection : List ClusterEvent :=
  [[.campaign 2], Cluster.round 2, [.deliver 1], Cluster.round 3, [.deliver 2], Cluster.round 2,
    [.deliver 4], Cluster.round 3, [.deliver 5], Cluster.round 2].flatten

/-- Node 2 then commits a proposal with the ack of node 3. The first append to node 3
is still on its way. -/
def firstCommit : List ClusterEvent :=
  [firstElection, [.propose 2 [7]], Cluster.round 2, [.deliver 9], Cluster.round 3, [.deliver 10],
    Cluster.round 2].flatten

end Kvgo

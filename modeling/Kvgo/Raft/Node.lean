import Kvgo.Raft.Core

/-! The loop around the state machine (`node.go`). Each event is one arm of the
`select` in `run`; `loopTop` is the code at the head of the loop, which runs
before every `select`. A channel operation that is not enabled leaves the node
as it is. -/

namespace Kvgo

structure Ready where
  lead : Nat := 0
  entries : List Entry := []
  committedEntries : List Entry := []
  messages : List Message := []
  hardState : Option HardState := none
  readStates : List ReadState := []
  deriving DecidableEq, Repr

namespace Raft

def ready (r : Raft) : Except Panic Ready := do
  let committedEntries ← r.raftLog.nextCommittedEnts
  .ok {
    lead := r.lead
    entries := r.raftLog.nextUnstableEnts
    committedEntries
    messages := r.messages ++ r.msgsAfterAppend.filter (fun m => decide (m.toId ≠ r.id))
    hardState := some r.hardState
    readStates := r.readStates }

def hasReady (r : Raft) : Bool :=
  !r.messages.isEmpty || !r.msgsAfterAppend.isEmpty || !r.readStates.isEmpty ||
    r.raftLog.hasNextUnstableEnts || r.raftLog.hasNextCommittedEnts

/-- The log part of `Advance`. -/
def advanceLog (l : RaftLog) (rd : Ready) : RaftLog :=
  let l := match rd.entries.getLast? with
    | none => l
    | some e => l.stableTo e.index e.term
  match rd.committedEntries.getLast? with
  | none => l
  | some e => l.appliedTo e.index

def advance (r : Raft) (rd : Ready) : Raft :=
  { r with raftLog := advanceLog r.raftLog rd, messages := [], readStates := [] }

end Raft

structure Node where
  r : Raft
  rd : Ready := {}
  /-- The backing array that `rd.entries` is a slice of. -/
  rdArray : Nat := 0
  /-- `readyc` and `advancec` are true where the source's variable is not nil. -/
  readyc : Bool := false
  advancec : Bool := false
  prevHard : Option HardState := none
  stepsOnAdvance : List Message := []

namespace Node

def hasReady (n : Node) : Bool :=
  (!isEmptyHardState (some n.r.hardState) && decide (some n.r.hardState ≠ n.prevHard)) ||
    n.r.hasReady

def ready (n : Node) : Except Panic Ready := do
  let rd ← n.r.ready
  .ok (if rd.hardState = n.prevHard then { rd with hardState := none } else rd)

def loopTop (n : Node) : Except Panic Node :=
  if !n.advancec && n.hasReady then do
    let rd ← n.ready
    .ok { n with rd, rdArray := n.r.raftLog.unstable.array, readyc := true }
  else .ok n

/-- What a holder of `rd.entries` reads once the log has written to the array it shares. -/
def sharedEntries (u : Unstable) (rd : Ready) : List Entry :=
  (u.backing.take rd.entries.length).filterMap id

def withRaft (n : Node) (r : Raft) : Node :=
  if n.rdArray = r.raftLog.unstable.array then
    { n with r, rd := { n.rd with entries := sharedEntries r.raftLog.unstable n.rd } }
  else { n with r }

def handle (n : Node) (result : Raft.Result) : Except Panic (Node × Option StepError) := do
  let (r, err) ← result
  .ok (n.withRaft r, err)

/-- The `readyc <- rd` arm: the receiver takes `rd`. -/
def accept (n : Node) : Node :=
  { n with
    readyc := false
    advancec := true
    stepsOnAdvance := n.stepsOnAdvance ++
      n.r.msgsAfterAppend.filter (fun m => decide (m.toId = n.r.id))
    r := { n.r with msgsAfterAppend := [] } }

/-- The `<-advancec` arm. -/
def advance (n : Node) : Except Panic Node := do
  let r ← n.stepsOnAdvance.foldlM Raft.stepQuietly (n.r.advance n.rd)
  .ok { n with
    r
    prevHard := if isEmptyHardState n.rd.hardState then n.prevHard else n.rd.hardState
    stepsOnAdvance := []
    rd := {}
    advancec := false }

inductive Event where
  | step (m : Message)
  | propose (data : Bytes)
  | campaign
  | readIndex (ctx : Bytes)
  | tick
  | accept
  | advance
  deriving DecidableEq, Repr

/-- One arm of the `select`; the second component is the error sent back to a caller. -/
def select (n : Node) : Event → Except Panic (Node × Option StepError)
  | .step m => if isLocalMsg m.type then .ok (n, none) else n.handle (n.r.step m)
  | .propose data => n.handle (n.r.propose data)
  | .campaign => n.handle n.r.campaign
  | .readIndex ctx => n.handle (n.r.readIndex ctx)
  | .tick => n.handle (Raft.done n.r.tick)
  | .accept => .ok (if n.readyc then n.accept else n, none)
  | .advance => if n.advancec then do .ok (← n.advance, none) else .ok (n, none)

def setupNode (cfg : Config) : Except Panic Node := do
  let r ← Raft.newRaft cfg
  .ok { r }

end Node

end Kvgo

import Kvgo.Raft.Message

/-! The queue of linearizable reads waiting for a heartbeat quorum (`read_only.go`). -/

namespace Kvgo

structure ReadState where
  index : Nat
  requestCtx : Bytes
  deriving DecidableEq, Repr

structure ReadIndexStatus where
  req : Message
  index : Nat
  acks : Nat → Option Bool

structure ReadOnly where
  pendingReadIndex : Bytes → Option ReadIndexStatus
  readIndexQueue : List Bytes

namespace ReadOnly

def newReadOnly : ReadOnly where
  pendingReadIndex := fun _ => none
  readIndexQueue := []

def addRequest (r : ReadOnly) (i : Nat) (m : Message) : ReadOnly :=
  match r.pendingReadIndex m.context with
  | some _ => r
  | none =>
    { pendingReadIndex := Function.update r.pendingReadIndex m.context
        (some { req := m, index := i, acks := fun _ => none })
      readIndexQueue := r.readIndexQueue ++ [m.context] }

/-- The queue with the ack recorded, and the acks the source returns: the empty map
when no request waits under the context. -/
def recvAck (r : ReadOnly) (id : Nat) (ctx : Bytes) : ReadOnly × (Nat → Option Bool) :=
  match r.pendingReadIndex ctx with
  | none => (r, fun _ => none)
  | some rs =>
    let acks := Function.update rs.acks id (some true)
    ({ r with pendingReadIndex :=
        Function.update r.pendingReadIndex ctx (some { rs with acks }) }, acks)

/-- The loop of `advance`: the statuses met on the way, and what is left of the
queue once the context is found. -/
def scan (pending : Bytes → Option ReadIndexStatus) (ctx : Bytes) :
    List Bytes → Except Panic (List ReadIndexStatus × Option (List Bytes))
  | [] => .ok ([], none)
  | okctx :: rest =>
    match pending okctx with
    | none => .error .readStateMissing
    | some rs =>
      if okctx = ctx then .ok ([rs], some rest)
      else do
        let (rss, found) ← scan pending ctx rest
        .ok (rs :: rss, found)

def advance (r : ReadOnly) (m : Message) : Except Panic (ReadOnly × List ReadIndexStatus) := do
  let (rss, found) ← scan r.pendingReadIndex m.context r.readIndexQueue
  match found with
  | none => .ok (r, [])
  | some rest =>
    .ok ({ pendingReadIndex := rss.foldl
             (fun pending rs => Function.update pending rs.req.context none) r.pendingReadIndex
           readIndexQueue := rest }, rss)

end ReadOnly

end Kvgo

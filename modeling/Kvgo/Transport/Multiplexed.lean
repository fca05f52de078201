import Kvgo.Lib.Runs
import Kvgo.Lib.Words
import Kvgo.Transport.Frame

/-! Requests of many callers over one connection (`multiplexed_transport.go`). Each call of `Request`
draws a number, files its channel under it and waits; one loop reads the responses and hands each to
the channel filed under its number. The calls, the loop and the peer take their steps in any order.

The locks are not modelled: each access to the map is one step, and steps may come between the
sends of `cleanup`, so there are more runs here than in the code. -/

namespace Kvgo

open Words

namespace Transport

namespace Multiplexed

def defaultMaxInflight : Nat := 128

inductive RequestError where
  | invalidPayload
  | transportClosed
  | cancelled
  | writeError
  deriving DecidableEq, Repr

/-- Where a call of `Request` stands. -/
inductive Phase where
  | idle
  | entering
  | allocating
  | drawn
  | allocated
  | registered
  | waiting
  /-- Before the deletion of its own entry. -/
  | leaving (e : RequestError)
  | failed (e : RequestError)
  /-- Returned with a payload; the caller is the one whose request was answered. -/
  | answered (payload : Bytes) (caller : Nat)
  deriving DecidableEq, Repr

/-- The payload of a frame. That it belongs to a call is not part of the bytes. -/
structure Packet where
  buf : Bytes
  caller : Nat
  deriving DecidableEq, Repr

def Packet.requestId (p : Packet) : Nat := ofLE (p.buf.take 4)

inductive Response where
  | ok (payload : Bytes) (caller : Nat)
  | transportClosed
  deriving DecidableEq, Repr

/-- The goroutine of `startReadLoop`; `found` and `sending` hold the channel of a call. -/
inductive ReadLoop where
  | notStarted
  | reading
  | got (p : Packet)
  | found (p : Packet) (ch : Nat)
  | sending (p : Packet) (ch : Nat)
  | stopped
  deriving DecidableEq, Repr

/-- The client, the requests that its peer has not answered and the responses on their way back. -/
structure Client where
  maxInflight : Nat
  nextId : Nat := 0
  /-- The call whose channel is filed under a number. -/
  pendingRequests : Nat → Option Nat := fun _ => none
  inflight : Nat := 0
  closed : Bool := false
  loop : ReadLoop := .notStarted
  phase : Nat → Phase := fun _ => .idle
  payload : Nat → Bytes := fun _ => []
  requestId : Nat → Nat := fun _ => 0
  respCh : Nat → Option Response := fun _ => none
  requests : List Packet := []
  wire : List Packet := []

def newMultiplexedTransportWithLimit (maxInflight : Int) : Client where
  maxInflight := if maxInflight ≤ 0 then defaultMaxInflight else maxInflight.toNat

inductive Event where
  | call (c : Nat) (payload : Bytes)
  | acquire (c : Nat)
  | cancel (c : Nat)
  | closedReturn (c : Nat)
  | add (c : Nat)
  | check (c : Nat)
  | register (c : Nat)
  | write (c : Nat)
  | writeFail (c : Nat)
  | remove (c : Nat)
  | receive (c : Nat)
  | respond (i : Nat) (data : Bytes)
  | read
  | lookup
  | delete
  | send
  | stop
  | close
  | fail (id : Nat)

namespace Client

def goto (s : Client) (c : Nat) (ph : Phase) : Client := { s with phase := Function.update s.phase c ph }

def finish (s : Client) (c : Nat) (ph : Phase) : Client := { s.goto c ph with inflight := s.inflight - 1 }

def startReadLoop (s : Client) : Client :=
  { s with loop := if s.loop = .notStarted then .reading else s.loop }

def clear (s : Client) (c : Nat) : Client := { s with respCh := Function.update s.respCh c none }

def forget (s : Client) (id : Nat) : Client :=
  { s with pendingRequests := Function.update s.pendingRequests id none }

def draw (s : Client) (c : Nat) : Client :=
  { s.goto c .drawn with
    nextId := (s.nextId + 1) % 2 ^ 32
    requestId := Function.update s.requestId c ((s.nextId + 1) % 2 ^ 32) }

def file (s : Client) (c : Nat) : Client :=
  { (s.goto c .registered).clear c with
    pendingRequests := Function.update s.pendingRequests (s.requestId c) (some c) }

def request (s : Client) (c : Nat) : Packet := ⟨le 4 (s.requestId c) ++ s.payload c, c⟩

def put (s : Client) (c : Nat) : Client :=
  { s.goto c .waiting with requests := s.requests ++ [s.request c] }

def answer (s : Client) (i : Nat) (q : Packet) (data : Bytes) : Client :=
  { s with requests := s.requests.eraseIdx i, wire := s.wire ++ [⟨q.buf.take 4 ++ data, q.caller⟩] }

def step (s : Client) : Event → Client
  | .call c payload =>
    if s.phase c = .idle then
      if payload = [] then s.goto c (.failed .invalidPayload)
      else { s.startReadLoop.goto c .entering with payload := Function.update s.payload c payload }
    else s
  | .acquire c =>
    if s.phase c = .entering ∧ s.inflight < s.maxInflight then
      { s.goto c .allocating with inflight := s.inflight + 1 }
    else s
  | .cancel c =>
    if s.phase c = .entering then s.goto c (.failed .cancelled)
    else if s.phase c = .waiting then s.goto c (.leaving .cancelled)
    else s
  | .closedReturn c =>
    if s.closed = true then
      if s.phase c = .entering then s.goto c (.failed .transportClosed)
      else if s.phase c = .waiting then s.finish c (.failed .transportClosed)
      else s
    else s
  | .add c => if s.phase c = .allocating then s.draw c else s
  | .check c =>
    if s.phase c = .drawn then
      if (s.pendingRequests (s.requestId c)).isSome then s.goto c .allocating else s.goto c .allocated
    else s
  | .register c => if s.phase c = .allocated then s.file c else s
  | .write c =>
    if s.phase c = .registered then
      -- `writeFrame` refuses what its header cannot announce
      if 2 ^ 32 - 1 < (s.request c).buf.length then s.goto c (.leaving .writeError) else s.put c
    else s
  | .writeFail c => if s.phase c = .registered then s.goto c (.leaving .writeError) else s
  | .remove c =>
    match s.phase c with
    | .leaving e => (s.finish c (.failed e)).forget (s.requestId c)
    | _ => s
  | .receive c =>
    if s.phase c = .waiting then
      match s.respCh c with
      | some (.ok payload caller) => (s.finish c (.answered payload caller)).clear c
      | some .transportClosed => (s.finish c (.failed .transportClosed)).clear c
      | none => s
    else s
  | .respond i data =>
    match s.requests[i]? with
    -- a larger frame is an error of the reader, which is `stop`
    | some q => if 4 + data.length ≤ defaultMaxFrameSize then s.answer i q data else s
    | none => s
  | .read =>
    match s.loop, s.wire with
    | .reading, p :: rest =>
      if p.buf.length < 4 ∨ p.requestId = 0 then { s with wire := rest }
      else { s with wire := rest, loop := .got p }
    | _, _ => s
  | .lookup =>
    match s.loop with
    | .got p =>
      match s.pendingRequests p.requestId with
      | some ch => { s with loop := .found p ch }
      | none => { s with loop := .reading }
    | _ => s
  | .delete =>
    match s.loop with
    | .found p ch => { s.forget p.requestId with loop := .sending p ch }
    | _ => s
  | .send =>
    match s.loop with
    | .sending p ch =>
      -- the channel has room for one response
      if s.respCh ch = none then
        { s with respCh := Function.update s.respCh ch (some (.ok (p.buf.drop 4) p.caller)), loop := .reading }
      else s
    | _ => s
  | .stop => if s.loop = .reading then { s with loop := .stopped, closed := true } else s
  | .close => { s with closed := true }
  | .fail id =>
    match s.pendingRequests id with
    | some ch =>
      if s.closed = true ∧ s.respCh ch = none then
        { s.forget id with respCh := Function.update s.respCh ch (some .transportClosed) }
      else s
    | none => s

def loopEvent (s : Client) : Event :=
  match s.loop with
  | .got _ => .lookup
  | .found _ _ => .delete
  | .sending _ _ => .send
  | _ => .read

def runLoop : Nat → Client → Client
  | 0, s => s
  | n + 1, s => runLoop n (s.step s.loopEvent)

section Fields

variable (s : Client) {c d : Nat} (ph : Phase)

theorem goto_self : (s.goto c ph).phase c = ph := Function.update_self _ _ _

theorem goto_other (differs : d ≠ c) : (s.goto c ph).phase d = s.phase d := Function.update_of_ne differs _ _

theorem clear_self : (s.clear c).respCh c = none := Function.update_self _ _ _

theorem clear_other (differs : d ≠ c) : (s.clear c).respCh d = s.respCh d := Function.update_of_ne differs _ _

theorem forget_self : (s.forget c).pendingRequests c = none := Function.update_self _ _ _

theorem forget_other (differs : d ≠ c) : (s.forget c).pendingRequests d = s.pendingRequests d :=
  Function.update_of_ne differs _ _

end Fields

end Client

/-! ### What is to hold -/

namespace Phase

@[simp] def early : Phase → Bool
  | idle | entering | allocating => true
  | _ => false

@[simp] def inUse : Phase → Bool
  | allocated | registered | waiting | leaving _ => true
  | _ => false

@[simp] def holds : Phase → Bool
  | drawn | allocated | registered | waiting | leaving _ => true
  | _ => false

@[simp] def filed : Phase → Bool
  | registered | waiting | leaving _ | failed _ | answered _ _ => true
  | _ => false

@[simp] def written : Phase → Bool
  | waiting | leaving _ | failed _ | answered _ _ => true
  | _ => false

@[simp] def begun : Phase → Bool
  | idle | failed _ => false
  | _ => true

theorem holds_of_inUse {ph : Phase} (used : ph.inUse = true) : ph.holds = true := by
  cases ph <;> simp_all

theorem begun_of_holds {ph : Phase} (holding : ph.holds = true) : ph.begun = true := by
  cases ph <;> simp_all

end Phase

def ReadLoop.packets : ReadLoop → List Packet
  | .got p | .found p _ | .sending p _ => [p]
  | _ => []

def ReadLoop.unlooked : ReadLoop → List Packet
  | .got p => [p]
  | _ => []

namespace Client

def responses (s : Client) : List Packet := s.loop.packets ++ s.wire

def underway (s : Client) : List Packet := s.requests ++ (s.loop.packets ++ s.wire)

def callers (s : Client) : List Nat := s.underway.map Packet.caller

def unseen (s : Client) : List Nat := (s.requests ++ (s.loop.unlooked ++ s.wire)).map Packet.caller

structure Served (s : Client) : Prop where
  nonzero : ∀ c, (s.phase c).inUse = true → s.requestId c ≠ 0
  distinct : ∀ c d, (s.phase c).inUse = true → (s.phase d).inUse = true → s.requestId c = s.requestId d → c = d
  /-- What a call is handed or has returned is the response to its own request. -/
  own : ∀ c payload caller,
    s.respCh c = some (.ok payload caller) ∨ s.phase c = .answered payload caller → caller = c
  /-- The frame of an outstanding request is with the peer, on its way back or in its channel. -/
  kept : s.closed = false → ∀ c, s.phase c = .waiting →
    c ∈ s.callers ∨ ∃ payload, s.respCh c = some (.ok payload c)
  /-- A response on its way to an outstanding request is delivered by the steps of the read loop. -/
  delivered : s.closed = false → ∀ p ∈ s.responses, s.phase p.caller = .waiting →
    ∀ n, 4 * s.responses.length ≤ n → (s.runLoop n).respCh p.caller = some (.ok (p.buf.drop 4) p.caller)

end Client

def NoWrap (s : Client) : Event → Prop
  | .add _ => s.nextId + 1 < 2 ^ 32
  | _ => True

instance decidableNoWrap (s : Client) : (e : Event) → Decidable (NoWrap s e)
  | .add _ => inferInstanceAs (Decidable (s.nextId + 1 < 2 ^ 32))
  | .call _ _ | .acquire _ | .cancel _ | .closedReturn _ | .check _ | .register _ | .write _ | .writeFail _
  | .remove _ | .receive _ | .respond _ _ | .read | .lookup | .delete | .send | .stop | .close | .fail _ =>
    inferInstanceAs (Decidable True)

end Multiplexed

end Transport

end Kvgo

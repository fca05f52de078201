import Kvgo.Transport.Routing

/-! The read loop delivers every response that it can read, and what happens when the counter of the
numbers wraps. -/

namespace Kvgo

open Words

namespace Transport

namespace Multiplexed

/-! ### Delivery -/

def ReadLoop.rank : ReadLoop → Nat
  | .got _ => 3
  | .found _ _ => 2
  | .sending _ _ => 1
  | _ => 0

namespace Client

def work (s : Client) : Nat := 4 * s.wire.length + s.loop.rank

def Carried (s : Client) (p : Packet) : Prop :=
  p ∈ s.responses ∨ s.respCh p.caller = some (.ok (p.buf.drop 4) p.caller)

theorem work_le (s : Client) : s.work ≤ 4 * s.responses.length := by
  unfold work responses
  cases s.loop <;> simp [ReadLoop.rank, ReadLoop.packets] <;> omega

theorem responses_nil {s : Client} (idle : s.work = 0) : s.responses = [] := by
  unfold work at idle
  have none : s.wire = [] := List.eq_nil_of_length_eq_zero (by omega)
  unfold responses
  rw [none]
  cases held : s.loop <;> rw [held] at idle <;> simp_all [ReadLoop.rank, ReadLoop.packets]

end Client

/-- The transport is open, the call of `p` waits and its response is underway. -/
structure Coming (s : Client) (p : Packet) : Prop where
  routed : Routed s
  isOpen : s.closed = false
  waits : s.phase p.caller = .waiting
  carried : s.Carried p

namespace Coming

open Client

variable {s : Client} {p : Packet}

theorem read (coming : Coming s p) (idle : s.loop = .reading) :
    Coming (s.step .read) p ∧ (s.step .read).work ≤ s.work - 1 := by
  have next := coming.routed.read_step
  have held : s.responses = s.wire := by rw [responses, idle]; rfl
  cases wire : s.wire with
  | nil =>
    have still : s.step .read = s := by
      simp only [Client.step, idle, wire]
    rw [still]
    refine ⟨coming, ?_⟩
    simp [work, idle, wire, ReadLoop.rank]
  | cons q rest =>
    have inside : q ∈ s.underway := by
      rw [underway, wire]
      simp
    have moved : s.step .read = { s with wire := rest, loop := .got q } := by
      simp only [Client.step, idle, wire]
      exact if_neg (coming.routed.readable inside)
    rw [moved] at next ⊢
    refine ⟨⟨next, coming.isOpen, coming.waits, coming.carried.imp_left fun there => ?_⟩, ?_⟩
    · rw [held, wire] at there
      exact there
    · simp only [work, idle, wire, ReadLoop.rank, List.length_cons]
      omega

theorem lookup (coming : Coming s p) {q : Packet} (held : s.loop = .got q) :
    Coming (s.step .lookup) p ∧ (s.step .lookup).work ≤ s.work - 1 := by
  have next := coming.routed.lookup_step
  cases entry : s.pendingRequests q.requestId with
  | some ch =>
    have moved : s.step .lookup = { s with loop := .found q ch } := by
      simp only [Client.step, held, entry]
    rw [moved] at next ⊢
    refine ⟨⟨next, coming.isOpen, coming.waits, coming.carried.imp_left fun there => ?_⟩, ?_⟩
    · rw [responses, held] at there
      exact there
    · simp only [work, held, ReadLoop.rank]
      omega
  | none =>
    have moved : s.step .lookup = { s with loop := .reading } := by
      simp only [Client.step, held, entry]
    rw [moved] at next ⊢
    refine ⟨⟨next, coming.isOpen, coming.waits, coming.carried.imp_left fun there => ?_⟩, ?_⟩
    · rw [responses, held] at there
      rcases List.mem_append.mp there with here | onWire
      · -- the entry of a waiting call is there as long as its response is not looked up
        cases List.mem_singleton.mp here
        have inside : p ∈ s.underway := Routed.held_underway (by rw [held]; rfl)
        have filed := (coming.routed.calls p.caller).found coming.isOpen
          (.inr ⟨coming.waits, List.mem_map_of_mem (by rw [held]; simp [ReadLoop.unlooked])⟩)
        rw [← (coming.routed.sent p inside).number, entry] at filed
        cases filed
      · exact onWire
    · simp only [work, held, ReadLoop.rank]
      omega

theorem delete (coming : Coming s p) {q : Packet} {ch : Nat} (held : s.loop = .found q ch) :
    Coming (s.step .delete) p ∧ (s.step .delete).work ≤ s.work - 1 := by
  have next := coming.routed.delete_step
  have moved : s.step .delete = { s.forget q.requestId with loop := .sending q ch } := by
    simp only [Client.step, held]
  rw [moved] at next ⊢
  refine ⟨⟨next, coming.isOpen, coming.waits, coming.carried.imp_left fun there => ?_⟩, ?_⟩
  · rw [responses, held] at there
    exact there
  · show 4 * s.wire.length + 1 ≤ s.work - 1
    simp only [work, held, ReadLoop.rank]
    omega

theorem send (coming : Coming s p) {q : Packet} {ch : Nat} (held : s.loop = .sending q ch) :
    Coming (s.step .send) p ∧ (s.step .send).work ≤ s.work - 1 := by
  have next := coming.routed.send_step
  have inside : q ∈ s.underway := Routed.held_underway (by rw [held]; rfl)
  obtain rfl := coming.routed.target q ch (.inr held)
  have room : s.respCh q.caller = none := 
    (coming.routed.calls _).empty coming.isOpen (.inr (List.mem_map_of_mem inside))
  have moved : s.step .send = { s with
      respCh := Function.update s.respCh q.caller (some (.ok (q.buf.drop 4) q.caller)), loop := .reading } := by
    simp only [Client.step, held]
    exact if_pos room
  rw [moved] at next ⊢
  refine ⟨⟨next, coming.isOpen, coming.waits, ?_⟩, ?_⟩
  · rcases coming.carried with there | given
    · rw [responses, held] at there
      rcases List.mem_append.mp there with here | onWire
      · cases List.mem_singleton.mp here
        exact .inr (Function.update_self _ _ _)
      · exact .inl onWire
    · have differs : p.caller ≠ q.caller := by
        intro same
        rw [same, room] at given
        cases given
      exact .inr ((Function.update_of_ne differs _ _).trans given)
  · show 4 * s.wire.length + 0 ≤ s.work - 1
    simp only [work, held, ReadLoop.rank]
    omega

theorem loop (coming : Coming s p) :
    Coming (s.step s.loopEvent) p ∧ (s.step s.loopEvent).work ≤ s.work - 1 := by
  unfold loopEvent
  cases held : s.loop with
  | notStarted => exact absurd held ((coming.routed.calls p.caller).begun (by rw [coming.waits]; rfl))
  | stopped =>
    have closed := coming.routed.stopped held
    rw [coming.isOpen] at closed
    cases closed
  | reading => exact coming.read held
  | got q => exact coming.lookup held
  | found q ch => exact coming.delete held
  | sending q ch => exact coming.send held

theorem runLoop (coming : Coming s p) {n : Nat} (enough : s.work ≤ n) :
    (s.runLoop n).respCh p.caller = some (.ok (p.buf.drop 4) p.caller) := by
  induction n generalizing s with
  | zero =>
    rcases coming.carried with there | given
    · rw [responses_nil (by omega)] at there
      cases there
    · exact given
  | succ n ih =>
    obtain ⟨next, less⟩ := coming.loop
    exact ih next (by omega)

end Coming

theorem Routed.served {s : Client} (routed : Routed s) : s.Served where
  nonzero c used := (routed.calls c).drawn (Phase.holds_of_inUse used)
  distinct c d used _ same := routed.unique c d same ((routed.calls c).drawn (Phase.holds_of_inUse used))
  own c := (routed.calls c).own
  kept isOpen c waits := by
    refine ((routed.calls c).kept isOpen waits).imp_right fun given => ?_
    obtain ⟨response, there⟩ := Option.ne_none_iff_exists'.mp given
    cases response with
    | ok payload caller =>
      obtain rfl := (routed.calls c).own payload caller (.inl there)
      exact ⟨payload, there⟩
    | transportClosed => exact absurd there ((routed.calls c).failing isOpen)
  delivered isOpen p there waits n enough :=
    Coming.runLoop ⟨routed, isOpen, waits, .inl there⟩ (s.work_le.trans enough)

/-- The draw that wraps hands out the number zero: the map never holds it. -/
theorem Routed.wraps {s : Client} {c : Nat} (routed : Routed s) (turn : s.phase c = .allocating)
    (last : s.nextId + 1 = 2 ^ 32) :
    (((s.step (.add c)).step (.check c)).phase c).inUse = true ∧
      ((s.step (.add c)).step (.check c)).requestId c = 0 := by
  have drawn : s.step (.add c) = s.draw c := if_pos turn
  have zero : (s.draw c).requestId c = 0 := by
    refine (Function.update_self _ _ _).trans ?_
    rw [last, Nat.mod_self]
  have phase : (s.draw c).phase c = .drawn := s.goto_self _
  have nothing : ((s.draw c).pendingRequests ((s.draw c).requestId c)).isSome = false := by
    rw [zero]
    show (s.pendingRequests 0).isSome = false
    cases entry : s.pendingRequests 0 with
    | none => rfl
    | some d => exact absurd rfl (routed.filed 0 d entry).2.1
  have checked : (s.draw c).step (.check c) = (s.draw c).goto c .allocated := by
    rw [Client.step, if_pos phase, if_neg (by rw [nothing]; exact Bool.false_ne_true)]
  rw [drawn, checked, Client.goto_self]
  exact ⟨rfl, zero⟩

/-- As long as the counter does not wrap, every response reaches its request; the draw that wraps
puts the number zero in use, whose responses the read loop discards. -/
theorem responses_reach_requests (maxInflight : Int) (events : List Event)
    (noWrap : Runs.Along Client.step NoWrap (newMultiplexedTransportWithLimit maxInflight) events) (moment : Nat) :
    (Runs.exec Client.step (newMultiplexedTransportWithLimit maxInflight) (events.take moment)).Served ∧
      ∀ s c, s = Runs.exec Client.step (newMultiplexedTransportWithLimit maxInflight) (events.take moment) →
        s.phase c = .allocating → s.nextId + 1 = 2 ^ 32 → ¬ ((s.step (.add c)).step (.check c)).Served := by
  have routed := Runs.invariant_take Client.step Routed (fun _ event routed ok => routed.step event ok)
    (Routed.start maxInflight) noWrap moment
  refine ⟨routed.served, ?_⟩
  rintro s c rfl turn last served
  obtain ⟨used, zero⟩ := routed.wraps turn last
  exact served.nonzero c used zero

def oneRequest : List Event :=
  [.call 0 [5], .acquire 0, .add 0, .check 0, .register 0, .write 0, .respond 0 [9], .read, .lookup, .delete, .send,
    .receive 0]

theorem oneRequest_served :
    (Runs.exec Client.step (newMultiplexedTransportWithLimit 0) (oneRequest.take 7)).Served ∧
      (Runs.exec Client.step (newMultiplexedTransportWithLimit 0) oneRequest).phase 0 = .answered [9] 0 :=
  ⟨(responses_reach_requests 0 oneRequest (by decide +kernel) 7).1, by decide +kernel⟩

/-! ### The counter wraps -/

def asked (c : Nat) : List Event :=
  [.call c [1], .acquire c, .add c, .check c, .register c, .write c, .respond 0 [2]]

def handed (c : Nat) : List Event := [.read, .lookup, .delete, .send, .receive c]

def rounds : Nat → List Event
  | 0 => []
  | n + 1 => rounds n ++ (asked n ++ handed n)

/-- The calls below `n` have returned and nothing is underway. -/
structure Quiet (n : Nat) (s : Client) : Prop where
  room : s.inflight < s.maxInflight
  counter : s.nextId = n
  pending : ∀ id, s.pendingRequests id = none
  isOpen : s.closed = false
  loop : s.loop = .notStarted ∨ s.loop = .reading
  requests : s.requests = []
  wire : s.wire = []
  fresh : ∀ c, n ≤ c → s.phase c = .idle ∧ s.respCh c = none

/-- After `asked`: the call waits and its response is on the wire. -/
def Client.asking (s : Client) (c id : Nat) : Client :=
  { s with
    nextId := id
    pendingRequests := Function.update s.pendingRequests id (some c)
    inflight := s.inflight + 1
    loop := .reading
    phase := Function.update s.phase c .waiting
    payload := Function.update s.payload c [1]
    requestId := Function.update s.requestId c id
    respCh := Function.update s.respCh c none
    requests := []
    wire := [⟨le 4 id ++ [2], c⟩] }

theorem Quiet.asked {n : Nat} {s : Client} (quiet : Quiet n s) :
    Runs.exec Client.step s (asked n) = s.asking n ((n + 1) % 2 ^ 32) := by
  obtain ⟨idle, empty⟩ := quiet.fresh n (Nat.le_refl n)
  have started : (if s.loop = .notStarted then ReadLoop.reading else s.loop) = .reading := by
    rcases quiet.loop with fresh | reading
    · rw [if_pos fresh]
    · rw [if_neg (by rw [reading]; nofun), reading]
  simp [Multiplexed.asked, Client.asking, Client.step, Client.goto, Client.startReadLoop, Client.draw, Client.file,
    Client.clear, Client.put, Client.request, Client.answer, idle, started, quiet.room, quiet.counter, quiet.pending,
    quiet.requests, quiet.wire, defaultMaxFrameSize]

theorem response_id {id : Nat} (fits : id < 2 ^ 32) (c : Nat) : (Packet.mk (le 4 id ++ [2]) c).requestId = id := by
  unfold Packet.requestId
  rw [List.take_left' (by simp)]
  exact ofLE_le 4 _ fits

theorem Quiet.handed {n id : Nat} {s : Client} (quiet : Quiet n s) (positive : id ≠ 0) (fits : id < 2 ^ 32) :
    Runs.exec Client.step (s.asking n id) (handed n) =
      { s with
        nextId := id
        loop := .reading
        phase := Function.update s.phase n (.answered [2] n)
        payload := Function.update s.payload n [1]
        requestId := Function.update s.requestId n id
        respCh := Function.update s.respCh n none
        pendingRequests := Function.update s.pendingRequests id none } := by
  have number := response_id fits n
  have data : (le 4 id ++ [2]).drop 4 = ([2] : Bytes) := List.drop_left' (by simp)
  simp [Multiplexed.handed, Client.asking, Client.step, Client.goto, Client.finish, Client.clear, Client.forget,
    number, data, positive, quiet.requests, quiet.wire]

theorem Quiet.next {n : Nat} {s : Client} (quiet : Quiet n s) (small : n + 1 < 2 ^ 32) :
    Quiet (n + 1) (Runs.exec Client.step s (Multiplexed.asked n ++ Multiplexed.handed n)) := by
  rw [Runs.exec_append, quiet.asked, Nat.mod_eq_of_lt small, quiet.handed (Nat.succ_ne_zero n) small]
  refine ⟨quiet.room, rfl, fun id => ?_, quiet.isOpen, .inr rfl, quiet.requests, quiet.wire, fun c above => ?_⟩
  · show Function.update s.pendingRequests (n + 1) none id = none
    by_cases same : id = n + 1
    · rw [same, Function.update_self]
    · rw [Function.update_of_ne same, quiet.pending]
  · have differs : c ≠ n := by omega
    obtain ⟨idle, empty⟩ := quiet.fresh c (by omega)
    exact ⟨(Function.update_of_ne differs _ _).trans idle, (Function.update_of_ne differs _ _).trans empty⟩

theorem quiet_rounds (n : Nat) (small : n < 2 ^ 32) :
    Quiet n (Runs.exec Client.step (newMultiplexedTransportWithLimit 0) (rounds n)) := by
  induction n with
  | zero => exact ⟨by decide, rfl, fun _ => rfl, rfl, .inl rfl, rfl, rfl, fun _ _ => ⟨rfl, rfl⟩⟩
  | succ n ih =>
    rw [rounds, Runs.exec_append]
    exact (ih (by omega)).next small

structure Discarded (s : Client) (c : Nat) : Prop where
  waits : s.phase c = .waiting
  zero : s.requestId c = 0
  isOpen : s.closed = false
  gone : s.underway = []
  empty : s.respCh c = none

theorem Quiet.discarded {n : Nat} {s : Client} (quiet : Quiet n s) (wraps : (n + 1) % 2 ^ 32 = 0) :
    Discarded (Runs.exec Client.step s (Multiplexed.asked n ++ [.read])) n := by
  have number := response_id (show 0 < 2 ^ 32 by decide) n
  have thrown : (s.asking n 0).step .read = { s.asking n 0 with wire := [] } := by
    simp [Client.step, Client.asking, number]
  rw [Runs.exec_append, quiet.asked, wraps, Runs.exec_cons, Runs.exec_nil, thrown]
  exact ⟨Function.update_self _ _ _, Function.update_self _ _ _, quiet.isOpen, rfl, Function.update_self _ _ _⟩

theorem discarded_after {n : Nat} (small : n < 2 ^ 32) (wraps : (n + 1) % 2 ^ 32 = 0) :
    Discarded (Runs.exec Client.step (newMultiplexedTransportWithLimit 0) (rounds n ++ (asked n ++ [.read]))) n := by
  rw [Runs.exec_append]
  exact (quiet_rounds n small).discarded wraps

theorem Discarded.not_served {s : Client} {c : Nat} (discarded : Discarded s c) : ¬ s.Served := by
  intro served
  refine served.nonzero c ?_ discarded.zero
  rw [discarded.waits]
  rfl

/-- The last of 2^32 calls, one after the other: it has the number zero and waits, and the read loop
has thrown its response away. -/
theorem zero_is_discarded :
    Discarded (Runs.exec Client.step (newMultiplexedTransportWithLimit 0)
        (rounds (2 ^ 32 - 1) ++ (asked (2 ^ 32 - 1) ++ [.read]))) (2 ^ 32 - 1) ∧
      ¬ (Runs.exec Client.step (newMultiplexedTransportWithLimit 0)
        (rounds (2 ^ 32 - 1) ++ (asked (2 ^ 32 - 1) ++ [.read]))).Served := by
  have discarded := discarded_after (show 2 ^ 32 - 1 < 2 ^ 32 by decide) (by decide)
  exact ⟨discarded, discarded.not_served⟩

end Multiplexed

end Transport

end Kvgo

import Kvgo.Raft.Cluster
import Kvgo.Server.Envelope

/-! The waiter tables of a cluster of servers (`handler_kv.go`, `server.go`, `pkg/wait`).

Each server draws request ids from its own counter, and `proposePut` and `proposeRead` both
wait in one table under such an id. `applyEntry` triggers the waiter with the id that it finds
in a committed entry, whoever proposed it. A call is named by its position among all calls;
the raft layer may let any server apply any proposed entry at any time and any number of
times, and may answer a read index request at any time. -/

namespace Kvgo

open Words

namespace Server

/-- What goes through the channel of a waiter: a nil interface, an error or a `uint64`. -/
inductive Value where
  | nil
  | error
  | index (i : Nat)
  deriving DecidableEq, Repr

inductive Work where
  | put (key value : Bytes)
  | read
  deriving DecidableEq, Repr

def Work.isRead : Work → Bool
  | .read => true
  | .put _ _ => false

structure Call where
  server : Nat
  id : Nat
  work : Work
  deriving DecidableEq, Repr

def Call.payload (c : Call) : Option Bytes :=
  match c.work with
  | .put key value => encodeRequest { cmd := cmdPut, key, value }
  | .read => none

def Call.proposal (c : Call) : Option Bytes := c.payload.map (marshalEnvelope c.id)

/-- The context that `proposeRead` hands to raft: the id with its highest byte first. -/
def Call.context (c : Call) : Bytes := (le 8 c.id).reverse

structure Servers where
  reqIDGen : Nat → Nat := fun _ => 0
  /-- The call whose channel a server has registered under an id. -/
  waiters : Nat → Nat → Option Nat := fun _ _ => none
  calls : List Call := []
  /-- The calls that have neither returned nor died with their server. -/
  live : Nat → Bool := fun _ => false
  /-- The value in the channel of a call. -/
  channel : Nat → Option Value := fun _ => none
  /-- What the callers took from their channels. -/
  received : List (Nat × Value) := []
  /-- Which server has applied the entry of which call. -/
  applied : List (Nat × Nat) := []
  /-- The index with which raft has answered a read index request. -/
  answers : List (Nat × Nat) := []

inductive ServerEvent where
  /-- `proposePut` or `proposeRead` up to the call of raft. -/
  | call (server : Nat) (work : Work)
  /-- `Propose` or `ReadIndex` returns an error to the call. -/
  | refused (call : Nat)
  /-- The deadline of the call passes. -/
  | timeout (call : Nat)
  /-- The call takes the value from its channel. -/
  | receive (call : Nat)
  /-- A server applies the entry of a put. -/
  | apply (server call : Nat)
  /-- The `ReadState` that answers the request of a read reaches the server of the read. -/
  | readState (call index : Nat)
  | restart (server : Nat)

namespace Servers

def trigger (s : Servers) (server id : Nat) (x : Value) : Servers :=
  match s.waiters server id with
  | none => s
  | some w =>
    { s with
      waiters := Function.update s.waiters server (Function.update (s.waiters server) id none)
      channel := Function.update s.channel w (some x) }

/-- `nextRequestID`, `Register` and what `proposePut` does before it calls raft. -/
def call (s : Servers) (server : Nat) (work : Work) : Servers :=
  let id := s.reqIDGen server + 1
  let c : Call := ⟨server, id, work⟩
  let s' : Servers := { s with
    reqIDGen := Function.update s.reqIDGen server id
    waiters := Function.update s.waiters server
      (Function.update (s.waiters server) id (some s.calls.length))
    calls := s.calls ++ [c]
    live := Function.update s.live s.calls.length true
    channel := Function.update s.channel s.calls.length none }
  match work with
  | .read => s'
  | .put _ _ => if c.payload = none then s'.trigger server id .error else s'

def leave (s : Servers) (call : Nat) : Servers := { s with live := Function.update s.live call false }

/-- `applyEntry` on the data of an entry, as far as the waiters go; what `PutAsync` does to the
state machine does not come back here. -/
def applyEntry (s : Servers) (server : Nat) (raw : Bytes) : Servers :=
  if raw = [] then s
  else
    match unmarshalEnvelope raw with
    | none => s
    | some (id, payload) =>
      match decodeRequest payload with
      | none => s.trigger server id .error
      | some req =>
        if req.cmd = cmdPut then s.trigger server id .nil else s.trigger server id .error

def step (s : Servers) : ServerEvent → Servers
  | .call server work => s.call server work
  | .refused call =>
    match s.calls[call]? with
    | none => s
    | some c =>
      if s.live call then
        match c.work with
        | .put _ _ => s.trigger c.server c.id .error
        | .read => (s.trigger c.server c.id .nil).leave call
      else s
  | .timeout call =>
    match s.calls[call]? with
    | none => s
    | some c =>
      if s.live call then
        match c.work with
        | .put _ _ => s.leave call
        | .read => (s.trigger c.server c.id .nil).leave call
      else s
  | .receive call =>
    match s.channel call with
    | none => s
    | some x =>
      if s.live call then { s with received := s.received ++ [(call, x)] }.leave call else s
  | .apply server call =>
    match (s.calls[call]?).bind Call.proposal with
    | none => s
    | some raw => { s with applied := s.applied ++ [(server, call)] }.applyEntry server raw
  | .readState call index =>
    match s.calls[call]? with
    | none => s
    | some c =>
      if c.work.isRead then
        { s with answers := s.answers ++ [(call, index)] }.trigger c.server (ofLE c.context.reverse)
          (.index index)
      else s
  | .restart server =>
    { s with
      reqIDGen := Function.update s.reqIDGen server 0
      waiters := Function.update s.waiters server (fun _ => none)
      live := fun call => s.live call && ((s.calls[call]?).map Call.server ≠ some server) }

def hit (s : Servers) (server call : Nat) : Option Nat :=
  ((s.calls[call]?).bind Call.proposal).bind (fun raw =>
    (unmarshalEnvelope raw).bind (fun envelope => s.waiters server envelope.1))

/-- A committed put meets, if any, the waiter of a put, and the answer to a read index request
meets, if any, the waiter of that request. -/
def Matched (s : Servers) : ServerEvent → Prop
  | .apply server call => ∀ w ∈ s.hit server call, ∀ c ∈ s.calls[w]?, c.work.isRead = false
  | .readState call _ => ∀ c ∈ s.calls[call]?,
      ∀ w ∈ s.waiters c.server (ofLE c.context.reverse), w = call
  | _ => True

def OwnWaiter (s : Servers) : ServerEvent → Prop
  | .apply server call => ∀ w ∈ s.hit server call, ∀ c ∈ s.calls[w]?, c.work.isRead = false → w = call
  | _ => True

instance (s : Servers) (e : ServerEvent) : Decidable (s.Matched e) :=
  match e with
  | .apply server call => inferInstanceAs (Decidable (∀ w ∈ s.hit server call, ∀ c ∈ s.calls[w]?, _))
  | .readState call _ => inferInstanceAs (Decidable (∀ c ∈ s.calls[call]?,
      ∀ w ∈ s.waiters c.server (ofLE c.context.reverse), w = call))
  | .call _ _ | .refused _ | .timeout _ | .receive _ | .restart _ => isTrue trivial

instance (s : Servers) (e : ServerEvent) : Decidable (s.OwnWaiter e) :=
  match e with
  | .apply server call =>
    inferInstanceAs (Decidable (∀ w ∈ s.hit server call, ∀ c ∈ s.calls[w]?, _ → w = call))
  | .readState _ _ | .call _ _ | .refused _ | .timeout _ | .receive _ | .restart _ => isTrue trivial

/-! ### The table -/

section Trigger

variable (s : Servers) (server id : Nat) (x : Value)

@[simp] theorem trigger_calls : (s.trigger server id x).calls = s.calls := by
  unfold trigger; split <;> rfl
@[simp] theorem trigger_live : (s.trigger server id x).live = s.live := by
  unfold trigger; split <;> rfl
@[simp] theorem trigger_reqIDGen : (s.trigger server id x).reqIDGen = s.reqIDGen := by
  unfold trigger; split <;> rfl
@[simp] theorem trigger_received : (s.trigger server id x).received = s.received := by
  unfold trigger; split <;> rfl
@[simp] theorem trigger_applied : (s.trigger server id x).applied = s.applied := by
  unfold trigger; split <;> rfl
@[simp] theorem trigger_answers : (s.trigger server id x).answers = s.answers := by
  unfold trigger; split <;> rfl

theorem trigger_waiters {other key w : Nat} (here : (s.trigger server id x).waiters other key = some w) :
    s.waiters other key = some w := by
  unfold trigger at here
  split at here
  · exact here
  · simp only [Function.update_apply] at here
    split at here
    · next same =>
      subst same
      rw [Function.update_apply] at here
      split at here
      · cases here
      · exact here
    · exact here

theorem trigger_channel {w : Nat} {v : Value} (here : (s.trigger server id x).channel w = some v) :
    s.channel w = some v ∨ s.waiters server id = some w ∧ v = x := by
  unfold trigger at here
  split at here
  · exact .inl here
  · next w' registered =>
    simp only [Function.update_apply] at here
    split at here
    · next same =>
      cases here
      exact .inr ⟨by rw [same, registered], rfl⟩
    · exact .inl here

end Trigger

/-- A waiter stands under the id of its call, at the server of its call, and a call in
progress shares its id with no waiter but its own. -/
structure Registered (s : Servers) : Prop where
  waiter : ∀ server id w, s.waiters server id = some w →
    ∃ c, s.calls[w]? = some c ∧ c.server = server ∧ c.id = id
  known : ∀ w, s.live w = true → ∃ c, s.calls[w]? = some c ∧ c.id ≤ s.reqIDGen c.server
  own : ∀ w c w', s.live w = true → s.calls[w]? = some c → s.waiters c.server c.id = some w' → w' = w

theorem Registered.shrink {s s' : Servers} (good : Registered s) (calls : s'.calls = s.calls)
    (gen : s'.reqIDGen = s.reqIDGen) (live : ∀ w, s'.live w = true → s.live w = true)
    (waiters : ∀ server id w, s'.waiters server id = some w → s.waiters server id = some w) :
    Registered s' where
  waiter server id w here := by rw [calls]; exact good.waiter server id w (waiters server id w here)
  known w alive := by rw [calls, gen]; exact good.known w (live w alive)
  own w c w' alive here there := by
    rw [calls] at here
    exact good.own w c w' (live w alive) here (waiters _ _ _ there)

theorem Registered.trigger {s : Servers} (good : Registered s) (server id : Nat) (x : Value) :
    Registered (s.trigger server id x) :=
  good.shrink (trigger_calls ..) (trigger_reqIDGen ..) (fun w alive => by simpa using alive)
    (fun _ _ _ => trigger_waiters s server id x)

theorem leave_live {s : Servers} {call w : Nat} (alive : (s.leave call).live w = true) :
    s.live w = true ∧ w ≠ call := by
  simp only [leave, Function.update_apply] at alive
  split at alive
  · cases alive
  · next other => exact ⟨alive, other⟩

theorem Registered.leave {s : Servers} (good : Registered s) (call : Nat) : Registered (s.leave call) :=
  good.shrink rfl rfl (fun _ alive => (leave_live alive).1) (fun _ _ _ here => here)

def registered (s : Servers) (server : Nat) (work : Work) : Servers :=
  { s with
    reqIDGen := Function.update s.reqIDGen server (s.reqIDGen server + 1)
    waiters := Function.update s.waiters server
      (Function.update (s.waiters server) (s.reqIDGen server + 1) (some s.calls.length))
    calls := s.calls ++ [⟨server, s.reqIDGen server + 1, work⟩]
    live := Function.update s.live s.calls.length true
    channel := Function.update s.channel s.calls.length none }

theorem call_eq (s : Servers) (server : Nat) (work : Work) :
    s.call server work = s.registered server work ∨
      (work.isRead = false ∧ s.call server work =
        (s.registered server work).trigger server (s.reqIDGen server + 1) .error) := by
  cases work with
  | read => exact .inl rfl
  | put key value =>
    simp only [call]
    split
    · exact .inr ⟨rfl, rfl⟩
    · exact .inl rfl

theorem calls_old {s : Servers} {server w : Nat} {work : Work} {c : Call}
    (here : s.calls[w]? = some c) : (s.registered server work).calls[w]? = some c := by
  have inside := (List.getElem?_eq_some_iff.mp here).1
  rw [registered, List.getElem?_append_left inside]
  exact here

theorem Registered.registered {s : Servers} (good : Registered s) (server : Nat) (work : Work) :
    Registered (s.registered server work) where
  waiter other id w here := by
    simp only [Servers.registered, Function.update_apply] at here
    split at here
    · next same =>
      subst same
      rw [Function.update_apply] at here
      split at here
      · next new =>
        cases here
        exact ⟨⟨other, s.reqIDGen other + 1, work⟩, by simp [Servers.registered], rfl, new.symm⟩
      · obtain ⟨c, there, at_, name⟩ := good.waiter other id w here
        exact ⟨c, calls_old there, at_, name⟩
    · obtain ⟨c, there, at_, name⟩ := good.waiter other id w here
      exact ⟨c, calls_old there, at_, name⟩
  known w alive := by
    by_cases new : w = s.calls.length
    · subst new
      exact ⟨⟨server, s.reqIDGen server + 1, work⟩, by simp [Servers.registered],
        by simp [Servers.registered]⟩
    · simp only [Servers.registered, Function.update_of_ne new] at alive
      obtain ⟨c, there, low⟩ := good.known w alive
      refine ⟨c, calls_old there, ?_⟩
      simp only [Servers.registered, Function.update_apply]
      split
      · next same => rw [same] at low; omega
      · exact low
  own w c w' alive here there := by
    by_cases new : w = s.calls.length
    · subst new
      have same : c = ⟨server, s.reqIDGen server + 1, work⟩ := by
        simpa [Servers.registered] using here.symm
      subst same
      simpa [Servers.registered] using there.symm
    · simp only [Servers.registered, Function.update_of_ne new] at alive
      obtain ⟨c', old, low⟩ := good.known w alive
      rw [calls_old old] at here
      cases here
      simp only [Servers.registered, Function.update_apply] at there
      split at there
      · next same =>
        rw [Function.update_apply, if_neg (by rw [same] at low; omega), ← same] at there
        exact good.own w c w' alive old there
      · exact good.own w c w' alive old there

/-! ### What the callers receive -/

/-- A rule for the values that a call may receive, given what has been applied and answered. -/
structure Rule where
  allows : List (Nat × Nat) → List (Nat × Nat) → Nat → Call → Value → Prop
  mono : ∀ {applied applied' answers answers' w c v}, applied ⊆ applied' → answers ⊆ answers' →
    allows applied answers w c v → allows applied' answers' w c v
  error : ∀ {applied answers w c}, c.work.isRead = false → allows applied answers w c .error

/-- Every value in the channel of a call in progress, and every value that was received, is
allowed. -/
structure Delivers (rule : Rule) (s : Servers) : Prop where
  channel : ∀ w v c, s.channel w = some v → s.live w = true → s.calls[w]? = some c →
    rule.allows s.applied s.answers w c v
  received : ∀ w v c, (w, v) ∈ s.received → s.calls[w]? = some c →
    rule.allows s.applied s.answers w c v
  callers : ∀ w v, (w, v) ∈ s.received → w < s.calls.length

variable {rule : Rule}

theorem Delivers.trigger {s : Servers} (good : Delivers rule s) {server id : Nat} {x : Value}
    (fits : ∀ w c, s.waiters server id = some w → s.live w = true → s.calls[w]? = some c →
      rule.allows s.applied s.answers w c x) : Delivers rule (s.trigger server id x) where
  channel w v c here alive there := by
    rw [trigger_live] at alive
    rw [trigger_calls] at there
    rw [trigger_applied, trigger_answers]
    rcases trigger_channel s server id x here with old | ⟨hit, same⟩
    · exact good.channel w v c old alive there
    · rw [same]
      exact fits w c hit alive there
  received w v c inside there := by
    rw [trigger_received] at inside
    rw [trigger_calls] at there
    rw [trigger_applied, trigger_answers]
    exact good.received w v c inside there
  callers w v inside := by
    rw [trigger_received] at inside
    rw [trigger_calls]
    exact good.callers w v inside

theorem Delivers.leave {s : Servers} (good : Delivers rule s) (call : Nat) :
    Delivers rule (s.leave call) :=
  ⟨fun w v c here alive there => good.channel w v c here (leave_live alive).1 there, good.received,
    good.callers⟩

theorem Delivers.giveUp {s : Servers} (good : Delivers rule s) (table : Registered s) {call : Nat}
    {c : Call} (here : s.calls[call]? = some c) (alive : s.live call = true) (x : Value) :
    Delivers rule ((s.trigger c.server c.id x).leave call) := by
  -- the call leaves first: its own waiter is the only one that the trigger can meet
  have swap : (s.trigger c.server c.id x).leave call = (s.leave call).trigger c.server c.id x := by
    unfold Servers.trigger Servers.leave
    dsimp only
    split <;> rfl
  rw [swap]
  refine (good.leave call).trigger (fun w c' hit still _ => ?_)
  exact absurd (table.own call c w alive here hit) (leave_live still).2

theorem Delivers.registered {s : Servers} (good : Delivers rule s) (table : Registered s) (server : Nat)
    (work : Work) : Delivers rule (s.registered server work) where
  channel w v c here alive there := by
    by_cases new : w = s.calls.length
    · subst new
      simp [Servers.registered] at here
    · simp only [Servers.registered, Function.update_of_ne new] at here alive
      obtain ⟨c', old, _⟩ := table.known w alive
      rw [calls_old old] at there
      cases there
      exact good.channel w v c here alive old
  received w v c inside there := by
    have old := good.callers w v inside
    rw [Servers.registered, List.getElem?_append_left old] at there
    exact good.received w v c inside there
  callers w v inside := by
    have old := good.callers w v inside
    simp only [Servers.registered, List.length_append, List.length_singleton]
    omega

theorem Delivers.note {s : Servers} (good : Delivers rule s) (applied answers : List (Nat × Nat)) :
    Delivers rule { s with
      applied := s.applied ++ applied
      answers := s.answers ++ answers } where
  channel w v c here alive there :=
    rule.mono (List.subset_append_left _ _) (List.subset_append_left _ _)
      (good.channel w v c here alive there)
  received w v c inside there :=
    rule.mono (List.subset_append_left _ _) (List.subset_append_left _ _)
      (good.received w v c inside there)
  callers := good.callers

/-- `applyEntry` triggers nil under the id of the envelope: what was proposed can be decoded. -/
theorem applyEntry_proposal (s : Servers) (server : Nat) {c : Call} {raw : Bytes}
    (proposed : c.proposal = some raw) :
    s.applyEntry server raw = s.trigger server (ofLE (le 8 c.id)) .nil := by
  obtain ⟨payload, encoded, rfl⟩ := Option.map_eq_some_iff.mp proposed
  have long : marshalEnvelope c.id payload ≠ [] := by
    intro empty
    have := congrArg List.length empty
    simp [marshalEnvelope] at this
  unfold Call.payload at encoded
  split at encoded
  · rw [applyEntry, if_neg long, unmarshalEnvelope_marshalEnvelope]
    simp only [decodeRequest_encodeRequest encoded, if_true]
  · cases encoded

theorem hit_proposal {s : Servers} {server call : Nat} {c : Call} {raw : Bytes}
    (here : s.calls[call]? = some c) (proposed : c.proposal = some raw) :
    s.hit server call = s.waiters server (ofLE (le 8 c.id)) := by
  obtain ⟨payload, _, rfl⟩ := Option.map_eq_some_iff.mp proposed
  simp [hit, here, proposed, unmarshalEnvelope_marshalEnvelope]

theorem hit_server {s : Servers} (table : Registered s) {server call w : Nat} {c : Call}
    (found : s.hit server call = some w) (here : s.calls[w]? = some c) : c.server = server := by
  obtain ⟨raw, _, found⟩ := Option.bind_eq_some_iff.mp found
  obtain ⟨envelope, _, waiting⟩ := Option.bind_eq_some_iff.mp found
  obtain ⟨c', there, home, _⟩ := table.waiter server envelope.1 w waiting
  rw [here] at there
  cases there
  exact home

/-- The calls of a server die with it, and its table is empty again. -/
theorem Registered.restart {s : Servers} (good : Registered s) (server : Nat) :
    Registered (s.step (.restart server)) := by
  refine ⟨fun other id w here => ?_, fun w alive => ?_, fun w c w' alive here there => ?_⟩
  · simp only [Servers.step, Function.update_apply] at here
    split at here
    · cases here
    · exact good.waiter other id w here
  · simp only [Servers.step, Bool.and_eq_true, decide_eq_true_eq] at alive
    obtain ⟨c, there, low⟩ := good.known w alive.1
    refine ⟨c, there, ?_⟩
    have elsewhere : c.server ≠ server := by
      intro same
      rw [there] at alive
      exact alive.2 (by rw [Option.map_some, same])
    simp only [Servers.step, Function.update_of_ne elsewhere]
    exact low
  · simp only [Servers.step, Bool.and_eq_true, decide_eq_true_eq] at alive
    simp only [Servers.step, Function.update_apply] at there
    split at there
    · cases there
    · exact good.own w c w' alive.1 here there

theorem Registered.step {s : Servers} (good : Registered s) (e : ServerEvent) : Registered (s.step e) := by
  cases e with
  | call server work =>
    rcases call_eq s server work with same | ⟨_, same⟩
    · change Registered (s.call server work)
      rw [same]
      exact good.registered server work
    · change Registered (s.call server work)
      rw [same]
      exact (good.registered server work).trigger _ _ _
  | refused call =>
    simp only [Servers.step]
    split
    · exact good
    · split
      · split
        · exact good.trigger _ _ _
        · exact (good.trigger _ _ _).leave call
      · exact good
  | timeout call =>
    simp only [Servers.step]
    split
    · exact good
    · split
      · split
        · exact good.leave call
        · exact (good.trigger _ _ _).leave call
      · exact good
  | receive call =>
    simp only [Servers.step]
    split
    · exact good
    · split
      · exact good.shrink rfl rfl (fun _ alive => (leave_live alive).1) (fun _ _ _ here => here)
      · exact good
  | apply server call =>
    simp only [Servers.step]
    split
    · exact good
    · next raw found =>
      obtain ⟨c, _, proposed⟩ := Option.bind_eq_some_iff.mp found
      rw [applyEntry_proposal _ server proposed]
      have noted : Registered { s with applied := s.applied ++ [(server, call)] } :=
        good.shrink rfl rfl (fun _ alive => alive) (fun _ _ _ here => here)
      exact noted.trigger _ _ _
  | readState call index =>
    simp only [Servers.step]
    split
    · exact good
    · split
      · have noted : Registered { s with answers := s.answers ++ [(call, index)] } :=
          good.shrink rfl rfl (fun _ alive => alive) (fun _ _ _ here => here)
        exact noted.trigger _ _ _
      · exact good
  | restart server => exact good.restart server

/-- A new call; if its request cannot be encoded, it is the one that gets the error. -/
theorem Delivers.call {s : Servers} (good : Delivers rule s) (table : Registered s) (server : Nat)
    (work : Work) : Delivers rule (s.call server work) := by
  have fresh := good.registered table server work
  rcases call_eq s server work with same | ⟨put, same⟩
  · rw [same]
    exact fresh
  · rw [same]
    refine fresh.trigger (fun w c hit _ there => rule.error ?_)
    -- the waiter is the one that was just registered
    have new : w = s.calls.length := by
      simpa [Servers.registered] using hit.symm
    subst new
    have same : c = ⟨server, s.reqIDGen server + 1, work⟩ := by
      simpa [Servers.registered] using there.symm
    rw [same]
    exact put

theorem Delivers.receive {s : Servers} (good : Delivers rule s) (table : Registered s) {call : Nat} {x : Value}
    (waiting : s.channel call = some x) (alive : s.live call = true) :
    Delivers rule (({ s with received := s.received ++ [(call, x)] } : Servers).leave call) := by
  refine ⟨fun w v c here still there => good.channel w v c here (leave_live still).1 there,
    fun w v c inside there => ?_, fun w v inside => ?_⟩
  · rcases List.mem_append.mp inside with old | new
    · exact good.received w v c old there
    · cases List.mem_singleton.mp new
      exact good.channel _ _ c waiting alive there
  · rcases List.mem_append.mp inside with old | new
    · exact good.callers w v old
    · cases List.mem_singleton.mp new
      obtain ⟨c, there, _⟩ := table.known _ alive
      exact (List.getElem?_eq_some_iff.mp there).1

/-- The values that a step sends are allowed, given what holds for the committed puts and the
answers to read index requests. -/
theorem Delivers.step {s : Servers} (good : Delivers rule s) (table : Registered s) (e : ServerEvent)
    (puts : ∀ server call, e = .apply server call → ∀ w c, s.hit server call = some w →
      s.calls[w]? = some c → rule.allows (s.applied ++ [(server, call)]) s.answers w c .nil)
    (reads : ∀ call index c', e = .readState call index → s.calls[call]? = some c' →
      c'.work.isRead = true → ∀ w c, s.waiters c'.server (ofLE c'.context.reverse) = some w →
      s.calls[w]? = some c → rule.allows s.applied (s.answers ++ [(call, index)]) w c (.index index)) :
    Delivers rule (s.step e) := by
  cases e with
  | call server work => exact good.call table server work
  | refused call =>
    simp only [Servers.step]
    split
    · exact good
    · next c here =>
      split
      · next alive =>
        split
        · next key value put =>
          refine good.trigger (fun w c' hit _ there => rule.error ?_)
          rw [table.own call c w alive here hit, here] at there
          cases there
          rw [put]
          rfl
        · exact good.giveUp table here alive .nil
      · exact good
  | timeout call =>
    simp only [Servers.step]
    split
    · exact good
    · next c here =>
      split
      · next alive =>
        split
        · exact good.leave call
        · exact good.giveUp table here alive .nil
      · exact good
  | receive call =>
    simp only [Servers.step]
    split
    · exact good
    · next x waiting =>
      split
      · next alive =>
        exact good.receive table waiting alive
      · exact good
  | apply server call =>
    simp only [Servers.step]
    split
    · exact good
    · next raw found =>
      obtain ⟨c, here, proposed⟩ := Option.bind_eq_some_iff.mp found
      rw [applyEntry_proposal _ server proposed]
      have noted : Delivers rule { s with applied := s.applied ++ [(server, call)] } := by
        simpa using good.note [(server, call)] []
      refine noted.trigger (fun w c' hit _ there => ?_)
      exact puts server call rfl w c' (by rw [hit_proposal here proposed]; exact hit) there
  | readState call index =>
    simp only [Servers.step]
    split
    · exact good
    · next c here =>
      split
      · next read =>
        have noted : Delivers rule { s with answers := s.answers ++ [(call, index)] } := by
          simpa using good.note [] [(call, index)]
        exact noted.trigger (fun w c' hit _ there => reads call index c rfl here read w c' hit there)
      · exact good
  | restart server =>
    refine ⟨fun w v c here alive there => good.channel w v c here ?_ there, good.received, good.callers⟩
    simp only [Servers.step, Bool.and_eq_true] at alive
    exact alive.1

theorem Registered.start : Registered {} where
  waiter _ _ _ here := by cases here
  known _ alive := by cases alive
  own _ _ _ alive := by cases alive

theorem Delivers.start : Delivers rule {} where
  channel _ _ _ here := by cases here
  received _ _ _ inside := by cases inside
  callers _ _ inside := by cases inside

/-! ### The types of the values -/

def typed : Rule where
  allows _ answers w c v :=
    match c.work with
    | .read => ∃ i, v = .index i ∧ (w, i) ∈ answers
    | .put _ _ => v = .nil ∨ v = .error
  mono := by
    intro applied applied' answers answers' w c v _ grown allowed
    cases work : c.work with
    | read =>
      simp only [work] at allowed ⊢
      obtain ⟨i, same, inside⟩ := allowed
      exact ⟨i, same, grown inside⟩
    | put key value =>
      simp only [work] at allowed ⊢
      exact allowed
  error := by
    intro applied answers w c put
    cases work : c.work with
    | read => rw [work] at put; cases put
    | put key value => exact .inr rfl

def truthful : Rule where
  allows applied _ w c v := c.work.isRead = false → v = .nil → (c.server, w) ∈ applied
  mono := by
    intro applied applied' answers answers' w c v grown _ allowed put nil
    exact grown (allowed put nil)
  error := by
    intro applied answers w c _ _ impossible
    cases impossible

/-- Every value that a caller receives has the type that its assertion expects. -/
theorem waiter_payloads_typed (events : List ServerEvent)
    (matched : Runs.Along step Matched {} events) (w : Nat) (v : Value) (c : Call)
    (got : (w, v) ∈ (Runs.exec step {} events).received)
    (here : (Runs.exec step {} events).calls[w]? = some c) :
    match c.work with
    | .read => ∃ i, v = .index i ∧ (w, i) ∈ (Runs.exec step {} events).answers
    | .put _ _ => v = .nil ∨ v = .error := by
  have both := Runs.invariant step (fun s => Registered s ∧ Delivers typed s)
    (fun s e good ok => ⟨good.1.step e, good.2.step good.1 e ?_ ?_⟩) ⟨.start, .start⟩ matched
  · exact both.2.received w v c got here
  · rintro server call rfl w c hit there
    have put := ok w hit c there
    cases work : c.work with
    | read => rw [work] at put; cases put
    | put key value =>
      simp only [typed, work]
      exact .inl trivial
  · rintro call index c' rfl here' read w c hit there
    have own := ok c' here' w hit
    subst own
    rw [here'] at there
    cases there
    cases work : c'.work with
    | put key value => rw [work] at read; cases read
    | read =>
      simp only [typed, work]
      exact ⟨index, rfl, List.mem_append_right _ (List.mem_singleton.mpr rfl)⟩

/-- A put that returns nil has been applied by its server. -/
theorem put_ack_truthful (events : List ServerEvent)
    (own : Runs.Along step OwnWaiter {} events) (w : Nat) (c : Call)
    (got : (w, Value.nil) ∈ (Runs.exec step {} events).received)
    (here : (Runs.exec step {} events).calls[w]? = some c) (put : c.work.isRead = false) :
    (c.server, w) ∈ (Runs.exec step {} events).applied := by
  have both := Runs.invariant step (fun s => Registered s ∧ Delivers truthful s)
    (fun s e good ok => ⟨good.1.step e, good.2.step good.1 e ?_ ?_⟩) ⟨.start, .start⟩ own
  · exact both.2.received w .nil c got here put rfl
  · rintro server call rfl w c hit there put' _
    have same := ok w hit c there put'
    subst same
    rw [hit_server good.1 hit there]
    exact List.mem_append_right _ (List.mem_singleton.mpr rfl)
  · rintro call index c' rfl _ _ w c _ _ _ impossible
    cases impossible

def ownCalls : List ServerEvent :=
  [.restart 2, .call 1 (.put [97] [1]), .call 2 .read, .apply 1 0, .readState 1 7, .receive 0, .receive 1]

theorem ownCalls_typed :
    (Runs.exec step {} ownCalls).received = [(0, .nil), (1, .index 7)] ∧
      ∃ i, Value.index 7 = .index i ∧ (1, i) ∈ (Runs.exec step {} ownCalls).answers :=
  ⟨by decide +kernel, waiter_payloads_typed ownCalls (by decide +kernel) 1 (.index 7) ⟨2, 1, .read⟩
    (by decide +kernel) (by decide +kernel)⟩

theorem ownCalls_truthful :
    (Runs.exec step {} ownCalls).received = [(0, .nil), (1, .index 7)] ∧
      (1, 0) ∈ (Runs.exec step {} ownCalls).applied :=
  ⟨by decide +kernel, put_ack_truthful ownCalls (by decide +kernel) 0 ⟨1, 1, .put [97] [1]⟩
    (by decide +kernel) (by decide +kernel) (by decide +kernel)⟩

def committedFrom2 (data : Bytes) : List ClusterEvent :=
  [firstElection, [.propose 2 data], Cluster.round 2, [.deliver 9], Cluster.round 3, [.deliver 10],
    Cluster.round 2, [.deliver 8], Cluster.round 1, [.deliver 11], Cluster.round 2, [.tick 2],
    Cluster.round 2, [.deliver 12], Cluster.round 1].flatten

def putOf2 : Call := ⟨2, 1, .put [98] [2]⟩

theorem putOf2_delivered : ∃ raw, putOf2.proposal = some raw ∧
    (1, ⟨2, 1, raw⟩) ∈ (Cluster.exec threeNodes (Cluster.init threeNodes (fun _ _ => 0))
      (committedFrom2 raw)).delivered :=
  ⟨(putOf2.proposal).getD [], by decide +kernel, by decide +kernel⟩

def readMeetsPut : List ServerEvent :=
  [.call 1 .read, .call 2 (.put [98] [2]), .apply 1 1, .receive 0]

theorem readMeetsPut_receives_nil :
    (Runs.exec step {} readMeetsPut).calls = [⟨1, 1, .read⟩, putOf2] ∧
      (Runs.exec step {} readMeetsPut).received = [(0, .nil)] := by
  decide +kernel

/-- Server 1 waits for a put with id 1, whose entry no one has applied, when it applies the
put of server 2. -/
def putMeetsPut : List ServerEvent :=
  [.call 1 (.put [97] [1]), .call 2 (.put [98] [2]), .apply 1 1, .receive 0]

theorem putMeetsPut_acked_early :
    (Runs.exec step {} putMeetsPut).calls = [⟨1, 1, .put [97] [1]⟩, putOf2] ∧
      (Runs.exec step {} putMeetsPut).received = [(0, .nil)] ∧
      (1, 0) ∉ (Runs.exec step {} putMeetsPut).applied := by
  decide +kernel

end Servers

end Server

end Kvgo

import Kvgo.Raft.ReadIndex
import Kvgo.Server.ReadGate

/-! The whole service: the raft cluster, the hosts between raft and the servers (`server/raft.go`), and the
reads of the clients. A read is registered by its server, asked of raft under its id, answered through the
channel of read states, and returns the value of its key once the server has applied the log up to the
answer. Every part takes its steps in any order. -/

namespace Kvgo

open Words

namespace Server

def readContext (id : Nat) : Bytes := (le 8 id).reverse

structure Service where
  cluster : Cluster
  /-- The reads for which a server has called `ReadIndex`. -/
  asked : Nat → Nat → Bool := fun _ _ => false
  /-- How many read states of the `Ready` at hand a host has sent. -/
  handed : Nat → Nat := fun _ => 0
  /-- The channels from a host to its server; each has room for one element. -/
  readStatec : Nat → Option ReadState := fun _ => none
  applyc : Nat → Option ToApply := fun _ => none
  gate : Nat → Gate := fun _ => { sm := fun _ => none }

inductive ServiceEvent where
  /-- A step of raft, of the network or of a host up to its read states. -/
  | raft (e : ClusterEvent)
  /-- A server calls `ReadIndex` for a read that it has registered. -/
  | ask (n id : Nat)
  /-- A host sends the next read state of its `Ready`. -/
  | hand (n : Nat)
  /-- A host sends the committed entries of its `Ready` and calls `Advance`. -/
  | pass (n : Nat)
  /-- A server loop takes a read state. -/
  | take (n : Nat)
  /-- A server loop takes a batch, applies it and lets the storage compact. -/
  | apply (n : Nat)
  /-- A step of a client's request. -/
  | gate (n : Nat) (e : GateEvent)

def ServiceEvent.asks (ctx : Bytes) : ServiceEvent → Bool
  | .ask _ id => readContext id == ctx
  | _ => false

namespace Service

def init (cfg : ClusterConfig) (rng : Nat → Nat → Nat) : Service where
  cluster := Cluster.init cfg rng

/-- The events of the cluster that only the servers and the ends of `handleBatch` cause. -/
def isServed : ClusterEvent → Bool
  | .readIndex _ _ | .advance _ | .compact _ _ => true
  | _ => false

def isLooped : GateEvent → Bool
  | .readState _ _ | .apply _ => true
  | _ => false

def mayAsk (sv : Service) (n id : Nat) : Bool :=
  decide ((sv.gate n).phase id = .asking) && !sv.asked n id

def atHand (sv : Service) (n : Nat) : Option Ready :=
  match sv.cluster.procs n with
  | .up node .sent => some node.rd
  | _ => none

def nextRead (sv : Service) (n : Nat) : Option ReadState :=
  if sv.readStatec n = none then (sv.atHand n).bind fun rd => rd.readStates[sv.handed n]? else none

def mayPass (sv : Service) (n : Nat) : Bool :=
  (sv.atHand n).any fun rd => decide (rd.readStates.length ≤ sv.handed n) &&
    ((toApply rd.committedEntries).isNone || (sv.applyc n).isNone)

def nextBatch (sv : Service) (n : Nat) : Option ToApply :=
  if (sv.gate n).crashed then none else sv.applyc n

/-- The compaction that `MaybeCompact` performs after a batch. -/
def compaction (threshold : Nat) (sv : Service) (n : Nat) : Option ClusterEvent :=
  (sv.nextBatch n).bind fun ap => (sv.cluster.node? n).bind fun node =>
    if node.r.raftLog.storage.snap.lastIncludedIndex < ap.appliedThru ∧
        threshold ≤ ap.appliedThru - node.r.raftLog.storage.snap.lastIncludedIndex then
      some (.compact n ap.appliedThru)
    else none

def move (threshold : Nat) (sv : Service) : ServiceEvent → Option ClusterEvent
  | .raft e => if isServed e then none else some e
  | .ask n id => if sv.mayAsk n id then some (.readIndex n (readContext id)) else none
  | .pass n => if sv.mayPass n then some (.advance n) else none
  | .apply n => sv.compaction threshold n
  | .hand _ | .take _ | .gate _ _ => none

def serve (sv : Service) : ServiceEvent → Service
  | .raft _ => sv
  | .ask n id =>
    if sv.mayAsk n id then { sv with asked := Function.update sv.asked n (Function.update (sv.asked n) id true) } else sv
  | .hand n =>
    match sv.nextRead n with
    | none => sv
    | some st => { sv with
        handed := Function.update sv.handed n (sv.handed n + 1)
        readStatec := Function.update sv.readStatec n (some st) }
  | .pass n =>
    if sv.mayPass n then
      { sv with
        handed := Function.update sv.handed n 0
        applyc := match (sv.atHand n).bind fun rd => toApply rd.committedEntries with
          | none => sv.applyc
          | some ap => Function.update sv.applyc n (some ap) }
    else sv
  | .take n =>
    if (sv.gate n).crashed then sv
    else
      match sv.readStatec n with
      | none => sv
      | some st => { sv with
          readStatec := Function.update sv.readStatec n none
          gate := Function.update sv.gate n ((sv.gate n).step (.readState st.requestCtx st.index)) }
  | .apply n =>
    match sv.nextBatch n with
    | none => sv
    | some ap => { sv with
        applyc := Function.update sv.applyc n none
        gate := Function.update sv.gate n ((sv.gate n).step (.apply ap)) }
  | .gate n e =>
    if isLooped e then sv else { sv with gate := Function.update sv.gate n ((sv.gate n).step e) }

def step (cfg : ClusterConfig) (threshold : Nat) (sv : Service) (e : ServiceEvent) : Service :=
  { sv.serve e with cluster := (sv.move threshold e).elim sv.cluster (Cluster.step cfg sv.cluster) }

def exec (cfg : ClusterConfig) (threshold : Nat) (rng : Nat → Nat → Nat) (events : List ServiceEvent) : Service :=
  Runs.exec (step cfg threshold) (init cfg rng) events

def Fine (threshold : Nat) (sv : Service) (e : ServiceEvent) : Prop :=
  ∀ e' ∈ sv.move threshold e, Cluster.isHosted e' = true ∧ Cluster.Tame sv.cluster e'

instance (threshold : Nat) (sv : Service) (e : ServiceEvent) : Decidable (sv.Fine threshold e) := by
  unfold Fine; infer_instance

def AsksAnew (cfg : ClusterConfig) (threshold : Nat) (start : Cluster) (ctx : Bytes) (sv : Service) (e : ServiceEvent) :
    Prop :=
  ∀ e' ∈ sv.move threshold e, Cluster.AsksAnew cfg start ctx sv.cluster e'

instance (cfg : ClusterConfig) (threshold : Nat) (start : Cluster) (ctx : Bytes) (sv : Service) (e : ServiceEvent) :
    Decidable (sv.AsksAnew cfg threshold start ctx e) := by
  unfold AsksAnew; infer_instance

variable {cfg : ClusterConfig} {threshold n : Nat} {sv : Service} {e : ServiceEvent} {s : History}

theorem lasting_of_hosted {e : ClusterEvent} (hosted : Cluster.isHosted e = true) : Cluster.isLasting e = true := by
  cases e <;> first | rfl | cases hosted

theorem cluster_step {P : Cluster → Prop} (keep : ∀ e' ∈ sv.move threshold e, P (Cluster.step cfg sv.cluster e'))
    (here : P sv.cluster) : P (sv.step cfg threshold e).cluster := by
  show P ((sv.move threshold e).elim _ _)
  cases moved : sv.move threshold e with
  | none => exact here
  | some e' => exact keep e' moved

theorem atHand_eq {rd : Ready} (here : sv.atHand n = some rd) :
    ∃ node, sv.cluster.procs n = .up node .sent ∧ node.rd = rd := by
  unfold atHand at here
  split at here
  · next node up => exact ⟨node, up, Option.some.inj here⟩
  · cases here

/-! ### What a server has applied -/

structure Fed (sv : Service) (n : Nat) (done waiting : List Entry) : Prop where
  log : (sv.gate n).log = done.map Entry.data
  applyc : sv.applyc n = toApply waiting
  passes : (sv.cluster.member n).Passes (done ++ waiting)
  served : (sv.cluster.member n).Served 0

theorem Fed.indexed {done waiting : List Entry} (fed : sv.Fed n done waiting) : IndexedFrom 1 (done ++ waiting) :=
  fed.served.indexed.of_isPrefix fed.passes.isPrefix

theorem plain_of_sim (sim : ClusterSim cfg s sv.cluster) {p : Packet} (sent : p ∈ sv.cluster.packets) :
    Node.Plain p.msg :=
  ⟨fun kind => ((sim.packets p sent).app kind).indexed, (sim.packets p sent).noSnap⟩

/-- A step of the cluster, other than the call of `Advance`, leaves the entries that were passed on. -/
theorem member_moves {c : Cluster} {e : ClusterEvent} {taken : List Entry} (plain : ∀ p ∈ c.packets, Node.Plain p.msg)
    (hosted : Cluster.isHosted e = true) (going : ∀ id, e ≠ .advance id) (passes : (c.member n).Passes taken)
    (served : (c.member n).Served 0) :
    ((c.step cfg e).member n).Passes taken ∧ ((c.step cfg e).member n).Served 0 := by
  have moved := Cluster.member_step 0 cfg c n hosted
  cases event : c.memberEvent n e with
  | none =>
    rw [event] at moved
    rw [show (c.step cfg e).member n = c.member n from moved]
    exact ⟨passes, served⟩
  | some e' =>
    rw [event] at moved
    have ordinary : (c.member n).Ordinary 0 e' := by
      cases e with
      | deliver position =>
        refine Replicas.Ordinary.member (r := { cluster := c }) ?_ event
        exact fun packet found => plain packet (List.mem_of_getElem? found)
      | ready id =>
        simp only [Cluster.memberEvent] at event
        split at event
        · cases event
          trivial
        · cases event
      | tick | campaign | propose | readIndex | transfer | save | send | advance | compact | crash | restart =>
        refine Replicas.Ordinary.member (r := { cluster := c }) ?_ event
        trivial
    have quiet : e' ≠ .advance := by
      rintro rfl
      cases e <;> simp [Cluster.memberEvent, Option.bind_eq_some_iff] at event
      exact going _ rfl
    rw [show (c.step cfg e).member n = (c.member n).step 0 e' from moved]
    exact ⟨passes.step served ordinary quiet, served.step ordinary⟩

end Service

namespace Gate

theorem trigger_rest (g : Gate) (id : Nat) (x : Value) :
    (g.trigger id x).log = g.log ∧ (g.trigger id x).answers = g.answers := by
  unfold trigger
  split <;> exact ⟨rfl, rfl⟩

/-- The steps that the loop does not take leave the log and the answers. -/
theorem step_rest (g : Gate) {e : GateEvent} (own : Service.isLooped e = false) :
    (g.step e).log = g.log ∧ (g.step e).answers = g.answers := by
  unfold step
  split
  · exact ⟨rfl, rfl⟩
  cases e with
  | readState | apply => cases own
  | read key | put => exact ⟨rfl, rfl⟩
  | refused id =>
    dsimp only
    split
    · exact trigger_rest g id .nil
    · exact ⟨rfl, rfl⟩
  | receive id =>
    dsimp only
    split
    · split <;> exact ⟨rfl, rfl⟩
    · exact ⟨rfl, rfl⟩
  | wait id => dsimp only; split <;> exact ⟨rfl, rfl⟩
  | expire id =>
    dsimp only
    split
    · exact trigger_rest g id .nil
    · exact ⟨rfl, rfl⟩
    · exact ⟨rfl, rfl⟩
  | proceed id =>
    dsimp only
    split
    · split <;> exact ⟨rfl, rfl⟩
    · exact ⟨rfl, rfl⟩
  | get id => dsimp only; split <;> exact ⟨rfl, rfl⟩

theorem step_apply (g : Gate) (ap : ToApply) (up : g.crashed = false) :
    (g.step (.apply ap)).log = g.log ++ ap.data ∧ (g.step (.apply ap)).answers = g.answers := by
  have answers := (applyEntries_spec g ap.data).1.answers
  rw [step, if_neg (by simp [up])]
  dsimp only
  split <;> exact ⟨rfl, answers⟩

theorem step_readState (g : Gate) (ctx : Bytes) (index : Nat) (up : g.crashed = false) :
    (g.step (.readState ctx index)).log = g.log ∧
      (g.step (.readState ctx index)).answers = g.answers ++ [(contextId ctx, index)] := by
  rw [step, if_neg (by simp [up])]
  exact ⟨(trigger_rest g _ _).1, rfl⟩

end Gate

namespace Service

variable {cfg : ClusterConfig} {threshold n : Nat} {sv : Service} {e : ServiceEvent} {s : History}
  {done waiting : List Entry}

theorem gate_cases {α : Type} (f : Gate → α) (m : Nat) (g : Gate) (n : Nat) :
    f (Function.update sv.gate m g n) = f (sv.gate n) ∨ n = m ∧ f (Function.update sv.gate m g n) = f g := by
  by_cases same : n = m
  · subst same
    exact .inr ⟨rfl, by rw [Function.update_self]⟩
  · exact .inl (by rw [Function.update_of_ne same])

theorem move_going {e' : ClusterEvent} (moved : e' ∈ sv.move threshold e) (other : ∀ m, e ≠ .pass m) :
    ∀ id, e' ≠ .advance id := by
  rintro id rfl
  cases e with
  | raft e =>
    simp only [move] at moved
    split at moved
    · cases moved
    · cases moved
      contradiction
  | ask m id' =>
    simp only [move] at moved
    split at moved <;> cases moved
  | pass m => exact other m rfl
  | apply m =>
    simp only [move, compaction, Option.mem_def, Option.bind_eq_some_iff] at moved
    obtain ⟨_, _, _, _, compacts⟩ := moved
    split at compacts <;> cases compacts
  | hand | take | gate => cases moved

/-- The gates and the channels of batches after a step other than `pass` and `apply`. -/
theorem serve_rest (sv : Service) {e : ServiceEvent} (passing : ∀ m, e ≠ .pass m) (applying : ∀ m, e ≠ .apply m)
    (n : Nat) :
    ((sv.serve e).gate n).log = (sv.gate n).log ∧ (sv.serve e).applyc = sv.applyc := by
  cases e with
  | raft => exact ⟨rfl, rfl⟩
  | ask m id => simp only [serve]; split <;> exact ⟨rfl, rfl⟩
  | hand m => simp only [serve]; split <;> exact ⟨rfl, rfl⟩
  | pass m => exact absurd rfl (passing m)
  | apply m => exact absurd rfl (applying m)
  | take m =>
    simp only [serve]
    split
    · exact ⟨rfl, rfl⟩
    · next up =>
      split
      · exact ⟨rfl, rfl⟩
      · next st _ =>
        refine ⟨?_, rfl⟩
        rcases gate_cases Gate.log m ((sv.gate m).step (.readState st.requestCtx st.index)) n with same | ⟨rfl, log⟩
        · exact same
        · exact log.trans (Gate.step_readState _ _ _ (by simpa using up)).1
  | gate m e =>
    simp only [serve]
    split
    · exact ⟨rfl, rfl⟩
    · next own =>
      refine ⟨?_, rfl⟩
      rcases gate_cases Gate.log m ((sv.gate m).step e) n with same | ⟨rfl, log⟩
      · exact same
      · exact log.trans (Gate.step_rest _ (by simpa using own)).1

theorem nextBatch_eq {ap : ToApply} (next : sv.nextBatch n = some ap) :
    (sv.gate n).crashed = false ∧ sv.applyc n = some ap := by
  unfold nextBatch at next
  split at next
  · cases next
  · next up => exact ⟨by simpa using up, next⟩

theorem Fed.thru (fed : sv.Fed n done waiting) {ap : ToApply} (batch : sv.applyc n = some ap) :
    ap.data = waiting.map Entry.data ∧ ap.appliedThru = done.length + waiting.length := by
  rw [fed.applyc] at batch
  obtain ⟨last, ends, rfl⟩ := Option.map_eq_some_iff.mp batch
  have final : (done ++ waiting).getLast? = some last := by rw [List.getLast?_append, ends]; rfl
  have place := fed.indexed.last final
  have positive := List.length_pos_of_mem (List.mem_of_getLast? final)
  rw [List.length_append] at place positive
  exact ⟨rfl, show last.index = _ by omega⟩

theorem Fed.apply (fed : sv.Fed n done waiting) (m : Nat)
    (member : ((sv.step cfg threshold (.apply m)).cluster.member n).Passes (done ++ waiting) ∧
      ((sv.step cfg threshold (.apply m)).cluster.member n).Served 0) :
    ∃ done waiting, (sv.step cfg threshold (.apply m)).Fed n done waiting := by
  have log : ((sv.step cfg threshold (.apply m)).gate n).log = ((sv.serve (.apply m)).gate n).log := rfl
  have applyc : (sv.step cfg threshold (.apply m)).applyc n = (sv.serve (.apply m)).applyc n := rfl
  simp only [serve] at log applyc
  cases next : sv.nextBatch m with
  | none =>
    rw [next] at log applyc
    exact ⟨done, waiting, log.trans fed.log, applyc.trans fed.applyc, member.1, member.2⟩
  | some ap =>
    rw [next] at log applyc
    by_cases same : n = m
    · subst same
      obtain ⟨up, batch⟩ := nextBatch_eq next
      refine ⟨done ++ waiting, [], ?_, ?_, by rw [List.append_nil]; exact member.1, member.2⟩
      · simp only [Function.update_self] at log
        rw [log, (Gate.step_apply _ ap up).1, fed.log, (fed.thru batch).1, List.map_append]
      · rw [applyc]
        exact Function.update_self _ _ _
    · simp only [Function.update_of_ne same] at log applyc
      exact ⟨done, waiting, log.trans fed.log, applyc.trans fed.applyc, member.1, member.2⟩

theorem mayPass_eq (able : sv.mayPass n = true) : ∃ node, sv.cluster.procs n = .up node .sent ∧
    sv.atHand n = some node.rd ∧ (toApply node.rd.committedEntries = none ∨ sv.applyc n = none) := by
  unfold mayPass at able
  cases here : sv.atHand n with
  | none =>
    rw [here] at able
    cases able
  | some rd =>
    rw [here] at able
    obtain ⟨node, up, rfl⟩ := atHand_eq here
    refine ⟨node, up, rfl, ?_⟩
    simpa using (Bool.and_eq_true_iff.mp able).2

/-- The host passes on what it holds before it calls `Advance`. -/
theorem Fed.pass (fed : sv.Fed n done waiting) (m : Nat) :
    ∃ done waiting, (sv.step cfg threshold (.pass m)).Fed n done waiting := by
  by_cases able : sv.mayPass m = true
  · have cluster : (sv.step cfg threshold (.pass m)).cluster = sv.cluster.advance m := by
      simp only [step, move, able]
      rfl
    have moved : (sv.step cfg threshold (.pass m)).cluster.member n =
        if m = n then (sv.cluster.member n).step 0 .advance else sv.cluster.member n := by
      rw [cluster]
      exact Cluster.member_advance ..
    have log : ((sv.step cfg threshold (.pass m)).gate n).log = (sv.gate n).log := by
      show ((sv.serve (.pass m)).gate n).log = _
      simp only [serve, able]
      rfl
    have applyc : (sv.step cfg threshold (.pass m)).applyc = (sv.serve (.pass m)).applyc := rfl
    simp only [serve, able, if_true] at applyc
    obtain ⟨node, up, here, room⟩ := mayPass_eq able
    rw [here, Option.bind_some] at applyc
    by_cases own : m = n
    · subst own
      rw [if_pos rfl] at moved
      have passed : ((sv.cluster.member m).step 0 .advance).Passes _ := fed.passes.advance fed.served up
      have served : ((sv.cluster.member m).step 0 .advance).Served 0 := fed.served.step trivial
      rw [← moved] at passed served
      cases batch : toApply node.rd.committedEntries with
      | none =>
        rw [batch] at applyc
        rw [Replicas.toApply_eq_none batch, List.append_nil] at passed
        exact ⟨done, waiting, log.trans fed.log, (congrFun applyc m).trans fed.applyc, passed, served⟩
      | some ap =>
        rw [batch] at applyc room
        have empty := room.resolve_left (by simp)
        rw [fed.applyc] at empty
        rw [Replicas.toApply_eq_none empty, List.append_nil] at passed
        refine ⟨done, node.rd.committedEntries, log.trans fed.log, ?_, passed, served⟩
        rw [applyc, batch]
        exact Function.update_self _ _ _
    · rw [if_neg own] at moved
      refine ⟨done, waiting, log.trans fed.log, ?_, moved ▸ fed.passes, moved ▸ fed.served⟩
      rw [applyc]
      cases toApply node.rd.committedEntries with
      | none => exact fed.applyc
      | some ap => exact (Function.update_of_ne (Ne.symm own) _ _).trans fed.applyc
  · have same : sv.step cfg threshold (.pass m) = sv := by
      simp [step, move, serve, able]
    rw [same]
    exact ⟨done, waiting, fed⟩

theorem Fed.step (fed : sv.Fed n done waiting) (sim : ClusterSim cfg s sv.cluster) (fine : sv.Fine threshold e) :
    ∃ done waiting, (sv.step cfg threshold e).Fed n done waiting := by
  by_cases passing : ∃ m, e = .pass m
  · obtain ⟨m, rfl⟩ := passing
    exact fed.pass m
  have other : ∀ m, e ≠ .pass m := fun m same => passing ⟨m, same⟩
  have member : ((sv.step cfg threshold e).cluster.member n).Passes (done ++ waiting) ∧
      ((sv.step cfg threshold e).cluster.member n).Served 0 := by
    refine cluster_step (P := fun c => (c.member n).Passes (done ++ waiting) ∧ (c.member n).Served 0)
      (fun e' moved => ?_) ⟨fed.passes, fed.served⟩
    exact member_moves (fun p sent => plain_of_sim sim sent) (fine e' moved).1 (move_going moved other) fed.passes fed.served
  by_cases applying : ∃ m, e = .apply m
  · obtain ⟨m, rfl⟩ := applying
    exact fed.apply m member
  · obtain ⟨log, applyc⟩ := serve_rest sv other (fun m same => applying ⟨m, same⟩) n
    exact ⟨done, waiting, log.trans fed.log, (congrFun applyc n).trans fed.applyc, member.1, member.2⟩

/-- A server keeps what is known of its reads. -/
theorem kept_step (kept : Gate.Kept 0 (fun _ => none) (sv.gate n)) (fed : sv.Fed n done waiting) :
    Gate.Kept 0 (fun _ => none) ((sv.step cfg threshold e).gate n) := by
  have moves (m : Nat) (e : GateEvent) (ok : n = m → Gate.Consecutive 0 (sv.gate n) e) :
      Gate.Kept 0 (fun _ => none) (Function.update sv.gate m ((sv.gate m).step e) n) := by
    by_cases same : n = m
    · subst same
      rw [Function.update_self]
      exact kept.step (ok rfl)
    · rw [Function.update_of_ne same]
      exact kept
  show Gate.Kept 0 _ ((sv.serve e).gate n)
  cases e with
  | raft => exact kept
  | ask m id => simp only [serve]; split <;> exact kept
  | hand m => simp only [serve]; split <;> exact kept
  | pass m => simp only [serve]; split <;> exact kept
  | take m =>
    simp only [serve]
    split
    · exact kept
    · split
      · exact kept
      · exact moves m _ fun _ => trivial
  | apply m =>
    simp only [serve]
    split
    · exact kept
    · next ap next =>
      refine moves m _ fun same => ?_
      subst same
      obtain ⟨data, thru⟩ := fed.thru (nextBatch_eq next).2
      show ap.appliedThru = 0 + (sv.gate n).log.length + ap.data.length
      rw [thru, data, fed.log, List.length_map, List.length_map, Nat.zero_add]
  | gate m e =>
    simp only [serve]
    split
    · exact kept
    · next own =>
      refine moves m e fun _ => ?_
      cases e <;> trivial

/-! ### What a read is told -/

variable {w : Watch}

def Formed (w : Watch) (c : Cluster) : Prop :=
  ∀ ctx, (∀ id, ctx ≠ readContext id) → ({ w with ctx } : Watch).before.Whole c

/-- The answers to a read that are on their way to a server or have reached it. -/
structure Told (w : Watch) (id : Nat) (sv : Service) : Prop where
  channel : ∀ n st, sv.readStatec n = some st → Gate.contextId st.requestCtx = id → w.Good st.index
  answers : ∀ n i, (id, i) ∈ (sv.gate n).answers → w.Good i

theorem readContext_contextId {id : Nat} : readContext (Gate.contextId (readContext id)) = readContext id := by
  have bytes := le_ofLE (le 8 id)
  rw [le_length] at bytes
  rw [readContext, Gate.contextId, readContext, List.reverse_reverse, bytes]

/-- The read states of the cluster that a server takes for an id were asked under its context. -/
theorem Formed.context (formed : Formed w sv.cluster) {st : ReadState} (there : st ∈ sv.cluster.readStates n) :
    st.requestCtx = readContext (Gate.contextId st.requestCtx) := by
  by_cases known : ∃ id, st.requestCtx = readContext id
  · obtain ⟨id, same⟩ := known
    rw [same, readContext_contextId]
  · have unknown := formed st.requestCtx (fun id same => known ⟨id, same⟩)
    exact (unknown.readStates there rfl).1.elim

theorem nextRead_mem {st : ReadState} (next : sv.nextRead n = some st) : st ∈ sv.cluster.readStates n := by
  unfold nextRead at next
  split at next
  · obtain ⟨rd, here, found⟩ := Option.bind_eq_some_iff.mp next
    obtain ⟨node, up, rfl⟩ := atHand_eq here
    simp only [Cluster.readStates, Cluster.node?, up]
    exact List.mem_append_right _ (List.mem_of_getElem? found)
  · cases next

theorem Told.step {id : Nat} (told : Told w id sv) (same : w.ctx = readContext id) (whole : w.Whole sv.cluster)
    (contexts : ∀ n, ∀ st ∈ sv.cluster.readStates n, st.requestCtx = readContext (Gate.contextId st.requestCtx)) :
    Told w id (sv.step cfg threshold e) := by
  -- a gate that hears nothing new
  have deaf (m : Nat) (g : Gate) (answers : g.answers = (sv.gate m).answers) (n i : Nat)
      (inside : (id, i) ∈ (Function.update sv.gate m g n).answers) : w.Good i := by
    rcases gate_cases Gate.answers m g n with old | ⟨rfl, new⟩
    · exact told.answers n i (old ▸ inside)
    · rw [new, answers] at inside
      exact told.answers n i inside
  suffices served : Told w id (sv.serve e) from ⟨served.channel, served.answers⟩
  cases e with
  | raft => exact told
  | ask m id' => simp only [serve]; split <;> exact ⟨told.channel, told.answers⟩
  | hand m =>
    simp only [serve]
    split
    · exact told
    · next st next =>
      refine ⟨fun n st' there mine => ?_, told.answers⟩
      rcases update_cases there with ⟨_, new⟩ | old
      · cases new
        have here := nextRead_mem next
        exact whole.readStates here (by rw [contexts m st here, mine, same])
      · exact told.channel n st' old mine
  | pass m => simp only [serve]; split <;> exact ⟨told.channel, told.answers⟩
  | take m =>
    simp only [serve]
    split
    · exact told
    · next up =>
      split
      · exact told
      · next st there =>
        refine ⟨fun n st' left mine => ?_, fun n i inside => ?_⟩
        · rcases update_cases left with ⟨_, none⟩ | old
          · cases none
          · exact told.channel n st' old mine
        · rcases gate_cases Gate.answers m ((sv.gate m).step (.readState st.requestCtx st.index)) n with old | ⟨rfl, new⟩
          · exact told.answers n i (old ▸ inside)
          · have heard := new.trans (Gate.step_readState _ _ _ (by simpa using up)).2
            rcases List.mem_append.mp (heard ▸ inside) with old | new
            · exact told.answers n i old
            · obtain ⟨mine, rfl⟩ := Prod.mk.inj (List.mem_singleton.mp new)
              exact told.channel n st there mine.symm
  | apply m =>
    simp only [serve]
    split
    · exact told
    · next ap next => exact ⟨told.channel, deaf m _ (Gate.step_apply _ ap (nextBatch_eq next).1).2⟩
  | gate m e =>
    simp only [serve]
    split
    · exact told
    · next own => exact ⟨told.channel, deaf m _ (Gate.step_rest _ (by simpa using own)).2⟩

/-- A step of the cluster asks under a context only if the step of the service does. -/
theorem move_asks {e' : ClusterEvent} {ctx : Bytes} (moved : e' ∈ sv.move threshold e) (silent : e.asks ctx = false) :
    e'.asks ctx = false := by
  cases e with
  | raft e =>
    simp only [move] at moved
    split at moved
    · cases moved
    · next own =>
      cases moved
      cases e' <;> first | rfl | exact absurd rfl own
  | ask m id =>
    simp only [move] at moved
    split at moved
    · cases moved
      exact silent
    · cases moved
  | pass m =>
    simp only [move] at moved
    split at moved <;> cases moved
    rfl
  | apply m =>
    simp only [move, compaction, Option.mem_def, Option.bind_eq_some_iff] at moved
    obtain ⟨_, _, _, _, compacts⟩ := moved
    split at compacts <;> cases compacts
    rfl
  | hand | take | gate => cases moved

theorem Formed.step (formed : Formed w sv.cluster) (same : w.voters = cfg.voters) (sim : ClusterSim cfg s sv.cluster)
    (fine : sv.Fine threshold e) : Formed w (sv.step cfg threshold e).cluster := by
  intro ctx unknown
  refine cluster_step (fun e' moved => ?_) (formed ctx unknown)
  obtain ⟨hosted, tame⟩ := fine e' moved
  refine (formed ctx unknown).unasked same sim (move_asks moved ?_) (lasting_of_hosted hosted) tame
  cases e <;> first | rfl | exact beq_false_of_ne (Ne.symm (unknown _))

theorem sim_step (sim : ClusterSim cfg s sv.cluster) (fine : sv.Fine threshold e) :
    ∃ s', TermLog.Ext s s' ∧ ClusterSim cfg s' (sv.step cfg threshold e).cluster := by
  refine cluster_step (P := fun c => ∃ s', TermLog.Ext s s' ∧ ClusterSim cfg s' c) (fun e' moved => ?_)
    ⟨s, .refl s, sim⟩
  obtain ⟨hosted, tame⟩ := fine e' moved
  exact sim.step (lasting_of_hosted hosted) tame

/-! ### Whole runs -/

/-- In every run the cluster has a history, and every server has applied what its node delivered. -/
theorem exec_base {rng : Nat → Nat → Nat} {events : List ServiceEvent}
    (fine : Runs.Along (step cfg threshold) (Fine threshold) (init cfg rng) events) :
    (∃ s, ClusterSim cfg s (exec cfg threshold rng events).cluster) ∧
      ∀ n, Gate.Kept 0 (fun _ => none) ((exec cfg threshold rng events).gate n) ∧
        ∃ done waiting, (exec cfg threshold rng events).Fed n done waiting := by
  refine Runs.invariant _ (fun sv => (∃ s, ClusterSim cfg s sv.cluster) ∧
    ∀ n, Gate.Kept 0 (fun _ => none) (sv.gate n) ∧ ∃ done waiting, sv.Fed n done waiting) ?_
    ⟨⟨_, .init cfg rng⟩, fun n => ?_⟩ fine
  · rintro sv e ⟨⟨s, sim⟩, servers⟩ fine
    obtain ⟨s', _, sim'⟩ := sim_step sim fine
    refine ⟨⟨s', sim'⟩, fun n => ?_⟩
    obtain ⟨kept, done, waiting, fed⟩ := servers n
    exact ⟨kept_step kept fed, fed.step sim fine⟩
  · obtain ⟨served, passes⟩ := Cluster.init_member cfg rng n
    exact ⟨Gate.kept_start 0 _, [], [], rfl, rfl, passes, served⟩

/-- Before a read is asked of raft, it is answered nowhere. -/
theorem exec_before {rng : Nat → Nat → Nat} {events : List ServiceEvent} {id : Nat} (same : w.voters = cfg.voters)
    (context : w.ctx = readContext id) (new : ∀ e ∈ events, e.asks w.ctx = false)
    (fine : Runs.Along (step cfg threshold) (Fine threshold) (init cfg rng) events) :
    w.before.Whole (exec cfg threshold rng events).cluster ∧ Formed w (exec cfg threshold rng events).cluster ∧
      Told w.before id (exec cfg threshold rng events) := by
  refine (Runs.invariant _ (fun sv => (∃ s, ClusterSim cfg s sv.cluster) ∧ w.before.Whole sv.cluster ∧
    Formed w sv.cluster ∧ Told w.before id sv) ?_ ⟨⟨_, .init cfg rng⟩, Watch.whole_init same rng,
      fun ctx _ => Watch.whole_init (w := { w with ctx }) same rng, ⟨?_, ?_⟩⟩ (Runs.along_and _ new fine)).2
  · rintro sv e ⟨⟨s, sim⟩, whole, formed, told⟩ ⟨silent, fine⟩
    obtain ⟨s', _, sim'⟩ := sim_step sim fine
    refine ⟨⟨s', sim'⟩, ?_, formed.step same sim fine, told.step context whole (fun n st => formed.context)⟩
    refine cluster_step (fun e' moved => ?_) whole
    obtain ⟨hosted, tame⟩ := fine e' moved
    exact whole.unasked same sim (move_asks moved silent) (lasting_of_hosted hosted) tame
  · intro n st none
    cases none
  · intro n i none
    cases none

/-- From then on its answers are good. -/
theorem exec_after {start : Service} {events : List ServiceEvent} {id : Nat} (same : w.voters = cfg.voters)
    (context : w.ctx = readContext id) (asked : w.asked) (used : ∀ y, w.used y → start.cluster.inUse cfg y = true)
    (since : w.Since s) (sim : ClusterSim cfg s start.cluster) (whole : w.Whole start.cluster)
    (formed : Formed w start.cluster) (told : Told w id start)
    (fine : Runs.Along (step cfg threshold) (Fine threshold) start events)
    (anew : Runs.Along (step cfg threshold) (AsksAnew cfg threshold start.cluster w.ctx) start events) :
    ∃ s', TermLog.Ext s s' ∧ ClusterSim cfg s' (Runs.exec (step cfg threshold) start events).cluster ∧
      Told w id (Runs.exec (step cfg threshold) start events) := by
  suffices kept : ∃ s', TermLog.Ext s s' ∧ ClusterSim cfg s' (Runs.exec (step cfg threshold) start events).cluster ∧
      w.Whole (Runs.exec (step cfg threshold) start events).cluster ∧
      Formed w (Runs.exec (step cfg threshold) start events).cluster ∧
      Told w id (Runs.exec (step cfg threshold) start events) by
    obtain ⟨s', ext, sim', _, _, told'⟩ := kept
    exact ⟨s', ext, sim', told'⟩
  refine Runs.invariant _ (fun sv => ∃ s', TermLog.Ext s s' ∧ ClusterSim cfg s' sv.cluster ∧ w.Whole sv.cluster ∧
    Formed w sv.cluster ∧ Told w id sv) ?_ ⟨s, .refl s, sim, whole, formed, told⟩ (Runs.along_both _ fine anew)
  have inv : TermLog.Inv Entry.term w.voters s := same ▸ sim.inv
  rintro sv e ⟨s', ext, sim, whole, formed, told⟩ ⟨fine, anew⟩
  obtain ⟨s'', ext', sim'⟩ := sim_step sim fine
  refine ⟨s'', ext.trans ext', sim', ?_, formed.step same sim fine, told.step context whole (fun n st => formed.context)⟩
  refine cluster_step (fun e' moved => ?_) whole
  obtain ⟨hosted, tame⟩ := fine e' moved
  exact whole.asked asked same (since.ext inv ext) sim used (anew e' moved) (lasting_of_hosted hosted) tame

/-- A part of the log that no majority can disagree with begins every longer list of such entries. -/
theorem isPrefix_of_safe {voters : List Nat} {L M : List Entry} {t : Nat} (inv : TermLog.Inv Entry.term voters s)
    (safe : TermLog.Safe voters s t L) (indexed : IndexedFrom 1 L) (indexed' : IndexedFrom 1 M)
    (each : ∀ e ∈ M, SafeEntry voters s e) (long : L.length ≤ M.length) : L <+: M := by
  refine List.prefix_iff_getElem?.mpr fun i inside => ?_
  have place := indexed i _ (List.getElem?_eq_getElem inside)
  have place' := indexed' i _ (List.getElem?_eq_getElem (inside.trans_le long))
  have first : SafeEntry voters s L[i] := by
    refine ⟨t, L, safe, by omega, ?_⟩
    rw [show L[i].index - 1 = i by omega]
    exact List.getElem?_eq_getElem inside
  rw [List.getElem?_eq_getElem (inside.trans_le long),
    first.unique inv (each _ (List.getElem_mem (inside.trans_le long))) (by omega)]

end Service

/-- A GET returns the value of its key after a part of the committed log that extends everything a leader had
committed at any moment at which the read had not yet been asked of raft. -/
theorem gets_see_earlier_commits (cfg : ClusterConfig) (threshold : Nat) (rng : Nat → Nat → Nat)
    (before after : List ServiceEvent) (id : Nat)
    (fine : Runs.Along (Service.step cfg threshold) (Service.Fine threshold) (Service.init cfg rng) (before ++ after))
    (new : ∀ e ∈ before, e.asks (readContext id) = false)
    (anew : Runs.Along (Service.step cfg threshold)
      (Service.AsksAnew cfg threshold (Service.exec cfg threshold rng before).cluster (readContext id))
      (Service.exec cfg threshold rng before) after)
    {leader : Nat} {r : Raft} (up : (Service.exec cfg threshold rng before).cluster.raft? leader = some r)
    (leads : r.state = .leader) {n : Nat} {value : Option Bytes}
    (got : ((Service.exec cfg threshold rng (before ++ after)).gate n).phase id = .got value) :
    ∃ log : List Entry, r.raftLog.view.take r.raftLog.committed <+: log ∧
      log <+: ((Service.exec cfg threshold rng (before ++ after)).cluster.member n).delivered ∧
      value = applyBatch (fun _ => none) (log.map Entry.data)
        (((Service.exec cfg threshold rng (before ++ after)).gate n).key id) := by
  obtain ⟨early, late⟩ := (Runs.along_append _ _ _ _ _).mp fine
  obtain ⟨⟨s, sim⟩, -⟩ := Service.exec_base early
  obtain ⟨w, same, context, asked, used, index, since, begins⟩ := Watch.exists_moment sim (readContext id) up leads
  obtain ⟨unasked, formed, untold⟩ := Service.exec_before (w := w) same context (context ▸ new) early
  have told : Service.Told w id (Service.exec cfg threshold rng before) :=
    ⟨fun n st there mine => (untold.channel n st there mine).1.elim,
      fun n i inside => (untold.answers n i inside).1.elim⟩
  obtain ⟨s', ext, sim', told'⟩ := Service.exec_after same context asked used since sim (begins unasked) formed told late
    (context ▸ anew)
  obtain ⟨-, servers⟩ := Service.exec_base fine
  rw [show Runs.exec (Service.step cfg threshold) (Service.exec cfg threshold rng before) after =
    Service.exec cfg threshold rng (before ++ after) from (Runs.exec_append _ _ _ _).symm] at sim' told'
  obtain ⟨kept, done, waiting, fed⟩ := servers n
  generalize Service.exec cfg threshold rng (before ++ after) = sv at *
  have stands := kept.reads id
  rw [got] at stands
  obtain ⟨i, a, answered, low, inside, rfl⟩ := stands
  rw [fed.log, List.length_map] at inside
  have passed : done.take a <+: (sv.cluster.member n).delivered :=
    ((List.take_prefix a done).trans (List.prefix_append done waiting)).trans fed.passes.isPrefix
  refine ⟨done.take a, ?_, passed, by rw [fed.log, List.map_take]⟩
  obtain ⟨node, phase, here, rfl⟩ := raft_eq_some up
  have core := (sim.hosts leader node phase here).1.core
  have size : (node.r.raftLog.view.take node.r.raftLog.committed).length = node.r.raftLog.committed := by
    rw [List.length_take, Nat.min_eq_left core.layered.committed]
  refine Service.isPrefix_of_safe sim'.inv (sim.inv.safe_ext ext core.safe) (core.layered.indexed.take _)
    (fed.served.indexed.of_isPrefix passed) (fun entry listed => ?_) ?_
  · obtain ⟨d, delivered, rfl⟩ := List.mem_map.mp (passed.subset listed)
    exact sim'.delivered d (List.mem_filter.mp delivered).1
  · have reached := (told'.answers n i answered).2
    rw [size, List.length_take, Nat.min_eq_left inside]
    omega

def hostRound (id : Nat) : List ServiceEvent :=
  [.raft (.ready id), .raft (.save id), .raft (.send id), .hand id, .pass id, .take id, .apply id]

def firstPut : List ServiceEvent :=
  [[.raft (.campaign 2)], hostRound 2, [.raft (.deliver 1)], hostRound 3, [.raft (.deliver 2)], hostRound 2,
    [.raft (.deliver 4)], hostRound 3, [.raft (.deliver 5)], hostRound 2,
    [.raft (.propose 2 (marshalEnvelope 9 ((encodeRequest ⟨cmdPut, [107], [1], 0⟩).getD [])))], hostRound 2,
    [.raft (.deliver 9)], hostRound 3, [.raft (.deliver 10)], hostRound 2].flatten

def followerGet : List ServiceEvent :=
  [[.gate 3 (.read [107]), .ask 3 1], hostRound 3, [.raft (.deliver 11)], hostRound 2, [.raft (.deliver 13)],
    hostRound 3, [.raft (.deliver 14)], hostRound 2, [.raft (.deliver 15)], hostRound 3,
    [.gate 3 (.receive 1), .gate 3 (.wait 1), .gate 3 (.proceed 1), .gate 3 (.get 1)]].flatten

theorem followerGet_current :
    ((Service.exec threeNodes 100 (fun _ _ => 0) firstPut).cluster.raft? 2).map
        (fun r => (r.state, r.raftLog.committed)) = some (.leader, 2) ∧
      ((Service.exec threeNodes 100 (fun _ _ => 0) (firstPut ++ followerGet)).gate 3).phase 1 = .got (some [1]) ∧
      ∀ r, (Service.exec threeNodes 100 (fun _ _ => 0) firstPut).cluster.raft? 2 = some r → r.state = .leader →
        ∃ log : List Entry, r.raftLog.view.take r.raftLog.committed <+: log ∧
          log <+: ((Service.exec threeNodes 100 (fun _ _ => 0) (firstPut ++ followerGet)).cluster.member 3).delivered ∧
          some [1] = applyBatch (fun _ => none) (log.map Entry.data)
            (((Service.exec threeNodes 100 (fun _ _ => 0) (firstPut ++ followerGet)).gate 3).key 1) := by
  have got : ((Service.exec threeNodes 100 (fun _ _ => 0) (firstPut ++ followerGet)).gate 3).phase 1 = .got (some [1]) := by
    decide +kernel
  refine ⟨by decide +kernel, got, fun r up leads => ?_⟩
  exact gets_see_earlier_commits threeNodes 100 (fun _ _ => 0) firstPut followerGet 1 (by decide +kernel)
    (by decide +kernel) (by decide +kernel) up leads got

end Server

end Kvgo

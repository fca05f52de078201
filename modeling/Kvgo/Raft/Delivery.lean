import Kvgo.Raft.Cursors
import Kvgo.Raft.Slots

/-! The committed entries that a process hands out: each index once and in order. -/

namespace Kvgo

namespace Member

open Node

/-- No snapshot arrives, appended entries are consecutive as every node sends them, and
only what was delivered is compacted. The process started at applied position `a`. -/
def Ordinary (a : Nat) (p : Member) : MemberEvent → Prop
  | .input (.step m) => Plain m
  | .compact index => index ≤ a + p.delivered.length
  | _ => True

instance (a : Nat) (p : Member) : (e : MemberEvent) → Decidable (p.Ordinary a e)
  | .input (.step m) => inferInstanceAs (Decidable (Plain m))
  | .compact index => inferInstanceAs (Decidable (index ≤ a + p.delivered.length))
  | .input (.propose _) | .input .campaign | .input (.readIndex _) | .input .tick | .input .accept
  | .input .advance | .ready | .save | .send | .advance => isTrue trivial

/-- An append that matches begins inside the log: it does not match an entry above `lastIndex`, which only the
storage still has. -/
def StartsInside (p : Member) : MemberEvent → Prop
  | .input (.step m) => ∀ node ∈ p.node?, m.type = .msgApp →
      node.r.raftLog.matchTerm m.index m.logTerm = .ok true → m.index ≤ node.r.raftLog.lastIndex
  | _ => True

instance (p : Member) : (e : MemberEvent) → Decidable (p.StartsInside e)
  | .input (.step m) => inferInstanceAs (Decidable (∀ node ∈ p.node?, m.type = .msgApp →
      node.r.raftLog.matchTerm m.index m.logTerm = .ok true → m.index ≤ node.r.raftLog.lastIndex))
  | .compact _ | .input (.propose _) | .input .campaign | .input (.readIndex _) | .input .tick | .input .accept
  | .input .advance | .ready | .save | .send | .advance => isTrue trivial

def Truthful (node : Node) : Prop :=
  ∀ e ∈ node.rd.committedEntries, node.r.raftLog.entryAt e.index = some e

/-- A process and what it delivered since it started at position `a`. -/
structure Serves (a : Nat) (node : Node) (phase : Phase) (delivered : List Entry) : Prop where
  kept : Kept node phase
  tight : RaftLog.Tight node.r.raftLog
  boundary : node.r.raftLog.storage.snap.lastIncludedIndex ≤ node.handed
  count : a + delivered.length = node.handed
  indexed : IndexedFrom (a + 1) delivered
  truthful : phase = .idle → node.readyc = true → Truthful node

theorem Serves.top {a : Nat} {node node' : Node} {phase : Phase} {delivered : List Entry}
    (serves : Serves a node phase delivered) (top : node.loopTop = .ok node') :
    Serves a node' phase delivered := by
  obtain ⟨kept, grows⟩ := serves.kept.top top
  rcases Cluster.loopTop_cases top with ⟨rfl, _⟩ | ⟨idle, _, rd, ready, rfl⟩
  · exact serves
  · refine ⟨kept, serves.tight, ?_, by rw [grows.handed]; exact serves.count, serves.indexed, fun _ _ => ?_⟩
    · rw [grows.handed]
      exact serves.boundary
    · have above : node.r.raftLog.storage.snap.lastIncludedIndex ≤ node.r.raftLog.applied := by
        have := serves.boundary
        simpa [Node.handed, idle] using this
      exact (serves.kept.steady.shape.nextCommittedEnts_entryAt serves.tight above
        (Node.ready_shows ready).committed).2

/-- The state machine works on; what is committed stays. -/
theorem Serves.onward {a : Nat} {node mid : Node} {phase : Phase} {delivered : List Entry}
    (serves : Serves a node phase delivered) (kept : Kept mid phase) (grows : Grows node mid 0)
    (same : mid.rd.committedEntries = node.rd.committedEntries) (readyc : mid.readyc = node.readyc)
    (onward : RaftLog.Onward node.r.raftLog mid.r.raftLog) : Serves a mid phase delivered := by
  refine ⟨kept, grows.tight serves.tight, ?_, by rw [grows.handed]; exact serves.count, serves.indexed,
    fun idle offered e inside => ?_⟩
  · rw [grows.handed, onward.storage]
    exact serves.boundary
  · rw [same] at inside
    rw [readyc] at offered
    obtain ⟨o, offer⟩ := serves.kept.offer (.inl offered)
    obtain ⟨k, bound, rfl⟩ := List.mem_iff_getElem.mp inside
    have place := offer.next k _ (List.getElem?_eq_getElem bound)
    have limit := offer.bound
    rw [onward.settled serves.tight _ (by omega)]
    exact serves.truthful idle offered _ inside

theorem Serves.compact {a : Nat} {node : Node} {phase : Phase} {delivered : List Entry}
    {threshold index : Nat} {storage : MemStorage} {err : Option StorageError}
    (serves : Serves a node phase delivered) (bound : index ≤ node.handed)
    (done : node.r.raftLog.storage.maybeCompact threshold index = .ok (storage, err)) :
    Serves a (Cluster.withStorage node storage) phase delivered := by
  obtain ⟨kept, grows⟩ := serves.kept.compact bound done
  obtain ⟨first, stored⟩ := serves.kept.steady.shape.stored
  rcases stored.maybeCompact done with rfl | compacted
  · exact serves
  refine ⟨kept, grows.tight serves.tight, ?_, serves.count, serves.indexed, fun idle offered e inside => ?_⟩
  · show storage.snap.lastIncludedIndex ≤ node.handed
    rw [compacted.snap]
    exact bound
  · -- an offered entry lies above everything that was handed out
    subst idle
    obtain ⟨_, waiting⟩ := serves.kept.arms.resolve_right (by simp)
    obtain ⟨o, offer⟩ := serves.kept.offer (.inl offered)
    obtain ⟨k, inRange, rfl⟩ := List.mem_iff_getElem.mp inside
    have place := offer.next k _ (List.getElem?_eq_getElem inRange)
    have truth := serves.truthful rfl offered _ inside
    simp only [Node.handed, waiting] at bound
    rw [← truth]
    show RaftLog.entryAt { node.r.raftLog with storage } _ = _
    unfold RaftLog.entryAt
    split
    · rfl
    · exact compacted.above _ (by simp at bound; omega)

def Served (a : Nat) (p : Member) : Prop :=
  match p.proc with
  | .up node phase => Serves a node phase p.delivered
  | .down _ _ => IndexedFrom (a + 1) p.delivered

theorem Served.indexed {a : Nat} {p : Member} (served : p.Served a) : IndexedFrom (a + 1) p.delivered := by
  unfold Served at served
  split at served
  · exact served.indexed
  · exact served

/-- The offer of an accepted `Ready` continues what was delivered. -/
theorem Serves.extended {a : Nat} {node : Node} {delivered : List Entry}
    (serves : Serves a node .idle delivered) (offered : node.readyc = true) :
    IndexedFrom (a + 1) (delivered ++ node.rd.committedEntries) := by
  obtain ⟨_, waiting⟩ := serves.kept.arms.resolve_right (by simp)
  obtain ⟨o, offer⟩ := serves.kept.offer (.inl offered)
  have count := serves.count
  simp only [Node.handed, waiting] at count
  refine serves.indexed.append ?_
  rw [show a + 1 + delivered.length = node.r.raftLog.applied + 1 by simp at count; omega]
  exact offer.next

section

variable {a : Nat} {node node' : Node} {phase' : Phase} {delivered : List Entry}

/-- Accepting a `Ready` hands out what it offers. -/
theorem Serves.accept (serves : Serves a node .idle delivered) (offered : node.readyc = true)
    (run : Cluster.run node .accepted .accept = .up node' phase') :
    Serves a node' phase' (delivered ++ node.rd.committedEntries) := by
  obtain ⟨rfl, kept, grows, storage⟩ := run_accept serves.kept offered run
  refine ⟨kept, grows.tight serves.tight, ?_, ?_, serves.extended offered, by simp⟩
  · rw [grows.handed, storage]
    exact serves.boundary.trans (Nat.le_add_right _ _)
  · rw [grows.handed, ← serves.count, List.length_append, Nat.add_assoc]

theorem Serves.save (serves : Serves a node .accepted delivered) (run : save node = .up node' phase') :
    Serves a node' phase' delivered := by
  obtain ⟨kept, busy, grows, snap⟩ := save_up serves.kept run
  refine ⟨kept, grows.tight serves.tight, ?_, by rw [grows.handed]; exact serves.count, serves.indexed,
    fun idle => absurd idle busy⟩
  rw [grows.handed, snap]
  exact serves.boundary

/-- `Advance` ends the round; the head of the loop may offer the next one. -/
theorem Serves.advance (serves : Serves a node .sent delivered)
    (run : Cluster.run node .idle .advance = .up node' phase') : Serves a node' phase' delivered := by
  obtain ⟨rfl, mid, top, kept, grows, quiet, storage⟩ := run_advance serves.kept run
  refine Serves.top ?_ top
  refine ⟨kept, grows.tight serves.tight, ?_, by rw [grows.handed]; exact serves.count, serves.indexed,
    fun _ offered => ?_⟩
  · rw [grows.handed, storage]
    exact serves.boundary
  · rw [quiet] at offered
    cases offered

theorem served_of {q : Member} (indexed : IndexedFrom (a + 1) q.delivered)
    (serves : ∀ node phase, q.proc = .up node phase → Serves a node phase q.delivered) : q.Served a := by
  unfold Served
  split
  · rename_i node phase up
    exact serves node phase up
  · exact indexed

end

theorem Served.step {a threshold : Nat} {p : Member} {e : MemberEvent} (served : p.Served a)
    (ordinary : p.Ordinary a e) : (p.step threshold e).Served a := by
  have indexed := served.indexed
  cases here : p.proc with
  | down cause storage =>
    have same : p.step threshold e = p := by rw [Member.step, here]
    rw [same]
    exact served
  | up node phase =>
    have serves : Serves a node phase p.delivered := by
      rw [Served, here] at served
      exact served
    cases e with
    | input arm =>
      simp only [Member.step, here]
      split
      · exact served
      · rename_i input
        have plain : ∀ m, arm = .step m → Plain m := by
          intro m same
          subst same
          exact ordinary
        refine served_of indexed fun node' phase' run => ?_
        obtain ⟨rfl, mid, top, kept, grows, same, onward⟩ :=
          run_input serves.kept input (plain_calls input plain) run
        exact (serves.onward kept grows same.1 same.2 onward).top top
    | ready =>
      simp only [Member.step, here]
      split
      · rename_i idle
        obtain ⟨rfl, offered⟩ := idle
        exact served_of (serves.extended offered) fun node' phase' run => serves.accept offered run
      · exact served
    | save =>
      simp only [Member.step, here]
      split
      · rename_i accepted
        subst accepted
        exact served_of indexed fun node' phase' run => serves.save run
      · exact served
    | send =>
      simp only [Member.step, here]
      split
      · rename_i saved
        subst saved
        refine served_of indexed fun node' phase' sent => ?_
        cases sent
        exact ⟨serves.kept.send, serves.tight, serves.boundary, serves.count, indexed, by simp⟩
      · exact served
    | advance =>
      simp only [Member.step, here]
      split
      · rename_i sent
        subst sent
        exact served_of indexed fun node' phase' run => serves.advance run
      · exact served
    | compact index =>
      simp only [Member.step, here]
      have bound : index ≤ node.handed := by
        rw [← serves.count]
        exact ordinary
      refine served_of indexed fun node' phase' run => ?_
      obtain ⟨rfl, _, _, storage, err, done, rfl⟩ := compact_up serves.kept bound run
      exact serves.compact bound done

theorem start_served {cfg : Config} {r : Raft} (sound : cfg.storage.Sound)
    (made : Raft.newRaft cfg = .ok r) : (start cfg).Served r.raftLog.applied := by
  unfold Served
  have none : (start cfg).delivered = [] := rfl
  rw [none]
  split
  · rename_i node phase up
    obtain ⟨r', built, rfl, kept, grows, top⟩ := start_kept sound up
    obtain rfl : r' = r := by rw [made] at built; exact (Except.ok.inj built).symm
    obtain ⟨shape, tight, position⟩ := Raft.newRaft_shape sound made
    refine Serves.top ?_ top
    refine ⟨?_, tight, ?_, ?_, fun _ _ here => by simp at here, by simp⟩
    · exact start_node_kept sound made
    · simpa [Node.handed, (Raft.newRaft_fresh made).storage] using position
    · simp [Node.handed]
  · exact fun _ _ here => by simp at here

/-- An append of consecutive entries that begins inside the log is the append of pointers. -/
theorem Serves.append_slots {a : Nat} {node : Node} {phase : Phase} {delivered : List Entry}
    (serves : Serves a node phase delivered) {m : Message} (consecutive : IndexedFrom (m.index + 1) m.entries)
    (inside : m.index ≤ node.r.raftLog.lastIndex) (room : Nat) :
    node.r.raftLog.slots.appendEntries m.entries room =
      (node.r.raftLog.appendEntries m.entries room).map RaftLog.slots := by
  refine RaftLog.appendEntries_slots fun e first => ?_
  have place : e.index = m.index + 1 := by
    rw [List.head?_eq_getElem?] at first
    exact consecutive 0 e first
  rw [place]
  by_cases none : node.r.raftLog.unstable.entries = []
  · have offset := serves.tight none
    have last := RaftLog.lastIndex_nil none
    omega
  · have last := RaftLog.lastIndex_cons serves.kept.steady.shape.placed.indexed none
    omega

/-- Every index is delivered once and in order, from the position at which the process started, and what a `Ready`
delivers is committed and is what the log holds there; and every append of the run is the one that the code makes
with its slice of pointers. -/
theorem delivered_in_order (threshold : Nat) (cfg : Config) (sound : cfg.storage.Sound) (r : Raft)
    (made : Raft.newRaft cfg = .ok r) (events : List MemberEvent)
    (ordinary : Runs.Along (step threshold) (Ordinary r.raftLog.applied) (start cfg) events)
    (inside : Runs.Along (step threshold) StartsInside (start cfg) events) :
    IndexedFrom (r.raftLog.applied + 1) (Runs.exec (step threshold) (start cfg) events).delivered ∧
      (∀ node, (Runs.exec (step threshold) (start cfg) events).proc = .up node .idle →
        node.readyc = true → ∀ e ∈ node.rd.committedEntries,
          e.index ≤ node.r.raftLog.committed ∧ node.r.raftLog.entryAt e.index = some e) ∧
      ∀ k m node phase, events[k]? = some (.input (.step m)) → m.type = .msgApp →
        (Runs.exec (step threshold) (start cfg) (events.take k)).proc = .up node phase →
        node.r.raftLog.matchTerm m.index m.logTerm = .ok true → ∀ room,
          node.r.raftLog.slots.appendEntries m.entries room =
            (node.r.raftLog.appendEntries m.entries room).map RaftLog.slots := by
  have served : ∀ k, (Runs.exec (step threshold) (start cfg) (events.take k)).Served r.raftLog.applied :=
    Runs.invariant_take (step threshold) (Served r.raftLog.applied) (fun _ _ good ok => good.step ok)
      (start_served sound made) ordinary
  have last := served events.length
  rw [List.take_length] at last
  refine ⟨last.indexed, fun node up offered e here => ?_, fun k m node phase event kind up agrees room => ?_⟩
  · rw [Served, up] at last
    obtain ⟨o, offer⟩ := last.kept.offer (.inl offered)
    obtain ⟨k, bound, rfl⟩ := List.mem_iff_getElem.mp here
    have place := offer.next k _ (List.getElem?_eq_getElem bound)
    have limit := offer.bound
    exact ⟨by omega, last.truthful rfl offered _ here⟩
  · have now := served k
    rw [Served, up] at now
    have plain : Plain m := Runs.along_at (step threshold) ordinary event
    have within : ∀ node ∈ node? _, _ := Runs.along_at (step threshold) inside event
    exact now.append_slots (plain.1 kind) (within node (by rw [node?, up]; rfl) kind agrees) room

def followTwo : List MemberEvent :=
  followOne ++ [.ready, .save, .send, .advance, .compact 1,
    .input (.step {
      type := .msgApp, fromId := 2, toId := 1, term := 1, index := 1, logTerm := 1, commit := 2,
      entries := [⟨2, 1, [9]⟩] }),
    .ready]

theorem followTwo_delivered : ∃ r, Raft.newRaft followerConfig = .ok r ∧
    IndexedFrom (r.raftLog.applied + 1) (Runs.exec (step 1) (start followerConfig) followTwo).delivered ∧
      (Runs.exec (step 1) (start followerConfig) followTwo).delivered = [⟨1, 1, []⟩, ⟨2, 1, [9]⟩] := by
  refine ⟨_, rfl, (delivered_in_order 1 followerConfig sound_empty _ rfl followTwo ?_ ?_).1, ?_⟩
  · decide +kernel
  · decide +kernel
  · decide +kernel

end Member

end Kvgo

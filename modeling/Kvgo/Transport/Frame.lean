import Kvgo.Lib.Words
import Kvgo.Raft.Cluster
import Kvgo.Raft.Steps

/-! Frames on a connection between two nodes (`frame.go`, `tcp_peer.go`), and what an append
message becomes on it. The writer takes any payload whose length has 32 bits; the reader
closes the connection when the announced length is above its limit. -/

namespace Kvgo

open Words

namespace Transport

inductive FrameError where
  | invalidFrame
  | frameTooLarge
  | eof
  | unexpectedEOF
  deriving DecidableEq, Repr

def defaultMaxFrameSize : Nat := 16 * 2 ^ 20

def readFull (stream : Bytes) (n : Nat) : Except FrameError (Bytes × Bytes) :=
  if n ≤ stream.length then .ok (stream.take n, stream.drop n)
  else if stream = [] then .error .eof
  else .error .unexpectedEOF

def readFrameMax (stream : Bytes) (maxPayload : Nat) : Except FrameError (Bytes × Bytes) :=
  if maxPayload = 0 then .error .invalidFrame
  else do
    let (hdr, stream) ← readFull stream 4
    let ln := ofLE hdr
    if maxPayload < ln then .error .frameTooLarge
    else if ln = 0 then .ok ([], stream)
    else readFull stream ln

def writeFrame (payload : Bytes) : Except FrameError Bytes :=
  if 2 ^ 32 - 1 < payload.length then .error .frameTooLarge
  else .ok (le 4 payload.length ++ payload)

theorem readFull_append (front rest : Bytes) :
    readFull (front ++ rest) front.length = .ok (front, rest) := by
  rw [readFull, if_pos (by simp), List.take_left, List.drop_left]

/-- The reader gets back the payload of a frame, unless it is above the limit. -/
theorem readFrameMax_writeFrame {payload frame : Bytes} (written : writeFrame payload = .ok frame)
    (rest : Bytes) {maxPayload : Nat} (positive : 0 < maxPayload) :
    readFrameMax (frame ++ rest) maxPayload =
      if maxPayload < payload.length then .error .frameTooLarge else .ok (payload, rest) := by
  unfold writeFrame at written
  split at written
  · cases written
  · next short =>
    cases written
    have header : readFull (le 4 payload.length ++ payload ++ rest) 4 =
        .ok (le 4 payload.length, payload ++ rest) := by
      rw [List.append_assoc]
      simpa using readFull_append (le 4 payload.length) (payload ++ rest)
    have size : ofLE (le 4 payload.length) = payload.length := ofLE_le 4 _ (by norm_num; omega)
    rw [readFrameMax, if_neg (by omega), header]
    simp only [bind, Except.bind, size]
    split
    · rfl
    · split
      · next empty => rw [List.length_eq_zero_iff.mp empty, List.nil_append]
      · exact readFull_append payload rest

/-! ### Append messages -/

def dataSize (entries : List Entry) : Nat := (entries.map (fun e => e.data.length)).sum

/-- Beside the data of an entry its number fields, tags and lengths take at most 34 bytes, and those of the message
itself at most 80. -/
def wireSize (entries : List Entry) : Nat := dataSize entries + 34 * entries.length + 80

/-- What is known of the output of `Marshal`: it holds the data of the entries, and little more. -/
structure Marshals (marshal : Message → Bytes) : Prop where
  data : ∀ m, dataSize m.entries ≤ (marshal m).length
  size : ∀ m, m.context = [] → m.snapshot = none → (marshal m).length ≤ wireSize m.entries

/-- The entries that the log holds for a peer, from its `NextIndex` to the last one; none if
the entry before them is gone and a snapshot is sent instead. -/
def unsent (r : Raft) (target : Nat) : List Entry :=
  match r.trk.progress target with
  | none => []
  | some p =>
    match r.raftLog.getTerm (decr p.nextIndex), r.raftLog.slice p.nextIndex (r.raftLog.lastIndex + 1) with
    | .ok (some _), .ok entries => entries
    | _, _ => []

theorem stamp_entries (r : Raft) (m : Message) : (r.stamp m).entries = m.entries := by
  unfold Raft.stamp
  dsimp only
  split <;> split <;> rfl

/-- The append that `sendAppend` queues carries the whole backlog of the peer. -/
theorem stamp_extras (r : Raft) (m : Message) :
    (r.stamp m).context = m.context ∧ (r.stamp m).snapshot = m.snapshot := by
  unfold Raft.stamp
  dsimp only
  split <;> split <;> exact ⟨rfl, rfl⟩

/-- The append that `sendAppend` queues carries the whole backlog of the peer, and nothing else of any length. -/
theorem sendAppend_entries {r r' : Raft} {target : Nat} {m : Message}
    (ok : r.sendAppend target = .ok r') (queued : r'.messages = r.messages ++ [m])
    (app : m.type = .msgApp) : m.entries = unsent r target ∧ m.context = [] ∧ m.snapshot = none := by
  unfold Raft.sendAppend at ok
  split at ok
  · cases ok
    simp at queued
  · next p tracked =>
    obtain ⟨found, prev, ok⟩ := Outcome.bind_eq_ok.mp ok
    cases found with
    | none =>
      rw [Raft.send_eq_ok ok] at queued
      have same := List.append_cancel_left queued
      rw [← List.singleton_inj.mp same, Raft.stamp_type] at app
      cases app
    | some prevTerm =>
      obtain ⟨entries, slice, ok⟩ := Outcome.bind_eq_ok.mp ok
      rw [Raft.send_eq_ok ok] at queued
      have same := List.append_cancel_left queued
      rw [← List.singleton_inj.mp same, stamp_entries, (stamp_extras _ _).1, (stamp_extras _ _).2]
      simp only [unsent, tracked, prev, slice, and_self]

theorem large_append_refused {marshal : Message → Bytes} (marshals : Marshals marshal) {m : Message}
    (large : defaultMaxFrameSize < dataSize m.entries) {frame : Bytes}
    (written : writeFrame (marshal m) = .ok frame) (rest : Bytes) :
    readFrameMax (frame ++ rest) defaultMaxFrameSize = .error .frameTooLarge := by
  rw [readFrameMax_writeFrame written rest (by decide), if_pos (lt_of_lt_of_le large (marshals.data m))]

theorem small_append_accepted {marshal : Message → Bytes} {m : Message}
    (small : (marshal m).length ≤ defaultMaxFrameSize) :
    ∃ frame, writeFrame (marshal m) = .ok frame ∧
      ∀ rest, readFrameMax (frame ++ rest) defaultMaxFrameSize = .ok (marshal m, rest) := by
  have written : writeFrame (marshal m) = .ok (le 4 (marshal m).length ++ marshal m) := by
    rw [writeFrame, if_neg]
    have : defaultMaxFrameSize < 2 ^ 32 - 1 := by decide
    omega
  refine ⟨_, written, fun rest => ?_⟩
  rw [readFrameMax_writeFrame written rest (by decide), if_neg (Nat.not_lt.mpr small)]

/-- What becomes of the append that is queued for a peer: the receiver takes its frame if the backlog of the peer,
with what is written beside the data, is within the limit, and closes the connection if the data alone is above it. -/
theorem append_deliverable_iff (r r' : Raft) (target : Nat) (m : Message) (marshal : Message → Bytes)
    (marshals : Marshals marshal) (ok : r.sendAppend target = .ok r')
    (queued : r'.messages = r.messages ++ [m]) (app : m.type = .msgApp) :
    ((∃ frame, writeFrame (marshal m) = .ok frame ∧
        ∀ rest, readFrameMax (frame ++ rest) defaultMaxFrameSize = .ok (marshal m, rest)) ↔
      (marshal m).length ≤ defaultMaxFrameSize) ∧
    (wireSize (unsent r target) ≤ defaultMaxFrameSize → (marshal m).length ≤ defaultMaxFrameSize) ∧
    (defaultMaxFrameSize < dataSize (unsent r target) → ∀ frame rest, writeFrame (marshal m) = .ok frame →
      readFrameMax (frame ++ rest) defaultMaxFrameSize = .error .frameTooLarge) := by
  obtain ⟨entries, context, snapshot⟩ := sendAppend_entries ok queued app
  refine ⟨⟨fun ⟨frame, written, accepted⟩ => ?_, small_append_accepted⟩, fun small => ?_,
    fun large frame rest written => ?_⟩
  · by_contra large
    have refused := accepted []
    rw [readFrameMax_writeFrame written [] (by decide), if_pos (by omega)] at refused
    cases refused
  · have size := marshals.size m context snapshot
    rw [entries] at size
    exact size.trans small
  · rw [← entries] at large
    exact large_append_refused marshals large written rest

def proposed (data : Bytes) : List ClusterEvent := firstElection ++ [.propose 2 data]

def afterProposal (data : Bytes) : Cluster :=
  Cluster.exec threeNodes (Cluster.init threeNodes (fun _ _ => 0)) (proposed data)

theorem proposed_messages (data : Bytes) :
    ((afterProposal data).raft? 2).map
      (fun r => (r.state, r.messages.map (fun m => (m.type, m.toId, m.entries)), unsent r 3)) =
    some (.leader, [(.msgApp, 1, [⟨1, 1, []⟩, ⟨2, 1, data⟩]), (.msgApp, 3, [⟨1, 1, []⟩, ⟨2, 1, data⟩])],
      [⟨1, 1, []⟩, ⟨2, 1, data⟩]) := by
  rfl

/-- The data of the entries one after the other, with a byte of the message before each. -/
def marshalData (m : Message) : Bytes := m.entries.flatMap (fun e => 0 :: e.data)

theorem marshalData_marshals : Marshals marshalData := by
  have length : ∀ entries : List Entry,
      (entries.flatMap (fun e => 0 :: e.data)).length = dataSize entries + entries.length := by
    intro entries
    induction entries with
    | nil => rfl
    | cons e entries ih =>
      simp only [List.flatMap_cons, List.length_append, ih, dataSize, List.map_cons, List.sum_cons, List.length_cons]
      omega
  refine ⟨fun m => ?_, fun m _ _ => ?_⟩
  · rw [marshalData, length]
    omega
  · rw [marshalData, length, wireSize]
    omega

/-- A leader with one small proposal: its append to node 3 is accepted. -/
theorem proposed_deliverable : ∃ r r' m, (afterProposal [7]).raft? 2 = some r ∧ r.sendAppend 3 = .ok r' ∧
    r'.messages = r.messages ++ [m] ∧ m.entries = [⟨1, 1, []⟩, ⟨2, 1, [7]⟩] ∧
      ∃ frame, writeFrame (marshalData m) = .ok frame ∧
        ∀ rest, readFrameMax (frame ++ rest) defaultMaxFrameSize = .ok (marshalData m, rest) := by
  obtain ⟨r, r', m, up, ok, queued, app, backlog⟩ : ∃ r r' m, (afterProposal [7]).raft? 2 = some r ∧
      r.sendAppend 3 = .ok r' ∧ r'.messages = r.messages ++ [m] ∧ m.type = .msgApp ∧
        unsent r 3 = [⟨1, 1, []⟩, ⟨2, 1, [7]⟩] := ⟨_, _, _, rfl, rfl, rfl, rfl, rfl⟩
  have all := append_deliverable_iff r r' 3 m marshalData marshalData_marshals ok queued app
  refine ⟨r, r', m, up, ok, queued, (sendAppend_entries ok queued app).1.trans backlog, all.1.mpr (all.2.1 ?_)⟩
  rw [backlog]
  decide

/-- A proposal of one byte more than the limit: the leader has queued appends to both peers
that no receiver accepts, and so is every later append from the same `NextIndex`. -/
theorem proposed_undeliverable :
    ∃ r m, (afterProposal (List.replicate (defaultMaxFrameSize + 1) 0)).raft? 2 = some r ∧
      r.state = .leader ∧ m ∈ r.messages ∧ m.type = .msgApp ∧ m.toId = 3 ∧
      ∀ marshal frame rest, Marshals marshal → writeFrame (marshal m) = .ok frame →
        readFrameMax (frame ++ rest) defaultMaxFrameSize = .error .frameTooLarge := by
  obtain ⟨r, up, shown⟩ := Option.map_eq_some_iff.mp
    (proposed_messages (List.replicate (defaultMaxFrameSize + 1) 0))
  simp only [Prod.mk.injEq] at shown
  obtain ⟨role, messages, -⟩ := shown
  have member : (MessageType.msgApp, 3, [⟨1, 1, []⟩, ⟨2, 1, List.replicate (defaultMaxFrameSize + 1) 0⟩]) ∈
      r.messages.map (fun m => (m.type, m.toId, m.entries)) := by
    rw [messages]
    simp
  obtain ⟨m, inside, same⟩ := List.mem_map.mp member
  simp only [Prod.mk.injEq] at same
  refine ⟨r, m, up, role, inside, same.1, same.2.1, fun marshal frame rest marshals written => ?_⟩
  refine large_append_refused marshals ?_ written rest
  rw [same.2.2]
  have length : (List.replicate (defaultMaxFrameSize + 1) (0 : UInt8)).length = defaultMaxFrameSize + 1 :=
    List.length_replicate
  generalize List.replicate (defaultMaxFrameSize + 1) (0 : UInt8) = data at length
  simp only [dataSize, List.map_cons, List.map_nil, List.sum_cons, List.sum_nil, List.length_nil, length]
  omega

end Transport

end Kvgo

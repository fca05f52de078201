import Kvgo.Lib.Runs
import Kvgo.Transport.Stream

/-! The transport between the raft nodes (`transport/raft`): `Send` puts the messages for a peer into its buffer
of 64, the writer of the peer takes them out one by one and writes each as a frame, dialing anew after a failed
write, and at the other end a read loop for each connection hands the messages to raft. A connection may break
after any byte, and the read loops of an old and a new connection run side by side.

Of the protobuf library only this is used: `Unmarshal` gives back what `Marshal` was given. -/

namespace Kvgo

open Words

namespace Transport

namespace Peers

def messageBufferSize : Nat := 64

/-- One connection from the writer of a peer to the read loop at the other end. -/
structure Conn where
  /-- What has got onto the connection. -/
  stream : Bytes := []
  /-- The messages that the writer has begun to write. -/
  written : List Message := []
  /-- The writer has not closed its end. -/
  isOpen : Bool := true
  /-- How much of the stream the read loop has read. -/
  taken : Nat := 0
  reading : Bool := true
  processed : List Message := []
  deriving DecidableEq, Repr

inductive Writer where
  | dialing
  | backoff
  /-- Writing to the last connection. -/
  | writing
  | stopped
  deriving DecidableEq, Repr

/-- A `tcpPeer` with the connections it has made, the last one first. -/
structure TcpPeer where
  msgc : List Message := []
  resetc : Bool := false
  writer : Writer := .dialing
  failures : Nat := 0
  conns : List Conn := []
  /-- What `Send` was called with. -/
  sent : List Message := []
  /-- A message was dropped. -/
  lossy : Bool := false
  deriving DecidableEq, Repr

inductive PeerEvent where
  | send (msgs : List Message)
  | reset
  | dial (ok : Bool)
  /-- The backoff ends: its timer fires or the peer was reset. -/
  | wake (timer : Bool)
  /-- The writer takes a message; the write may fail after some bytes. -/
  | write (fails : Option Nat)
  | stop
  /-- One pass of the read loop of a connection, counted from the last one. -/
  | read (k : Nat)
  /-- The read loop of a connection ends with its transport. -/
  | hangUp (k : Nat)

namespace TcpPeer

def offer (p : TcpPeer) (m : Message) : TcpPeer :=
  if p.msgc.length < messageBufferSize then { p with msgc := p.msgc ++ [m], sent := p.sent ++ [m] }
  else { p with sent := p.sent ++ [m], lossy := true }

def send (p : TcpPeer) (msgs : List Message) : TcpPeer := msgs.foldl offer p

def onLast (p : TcpPeer) (f : Conn → Conn) : TcpPeer :=
  match p.conns with
  | [] => p
  | c :: rest => { p with conns := f c :: rest }

def close (c : Conn) : Conn := { c with isOpen := false }

/-- `writeToConn` for one message. -/
def write (marshal : Message → Option Bytes) (p : TcpPeer) (fails : Option Nat) : TcpPeer :=
  match p.msgc with
  | [] => p
  | m :: rest =>
    match marshal m with
    | none => { p with msgc := rest, lossy := true }
    | some data =>
      match writeFrame data with
      | .error _ => { p.onLast close with msgc := rest, lossy := true, writer := .dialing }
      | .ok frame =>
        match fails with
        | none =>
          { p.onLast (fun c => { c with stream := c.stream ++ frame, written := c.written ++ [m] }) with msgc := rest }
        | some cut =>
          { p.onLast (fun c => { c with
              stream := c.stream ++ frame.take cut, written := c.written ++ [m], isOpen := false }) with
            msgc := rest, lossy := true, writer := .dialing }

end TcpPeer

/-- One pass of `readLoop`. While the writer's end is open the loop waits for a frame to be complete. -/
def Conn.read (unmarshal : Bytes → Option Message) (c : Conn) : Conn :=
  if c.reading then
    match readFrameMax (c.stream.drop c.taken) defaultMaxFrameSize with
    | .ok (payload, rest) =>
      let c := { c with taken := c.stream.length - rest.length }
      match unmarshal payload with
      | none => c
      | some m => { c with processed := c.processed ++ [m] }
    | .error .frameTooLarge => { c with reading := false }
    | .error _ => if c.isOpen then c else { c with reading := false }
  else c

def TcpPeer.step (marshal : Message → Option Bytes) (unmarshal : Bytes → Option Message) (p : TcpPeer) :
    PeerEvent → TcpPeer
  | .send msgs => p.send msgs
  | .reset => { p with resetc := true }
  | .dial ok =>
    if p.writer = .dialing then
      if ok then { p with writer := .writing, failures := 0, conns := {} :: p.conns }
      else { p with writer := .backoff, failures := p.failures + 1 }
    else p
  | .wake timer =>
    if p.writer = .backoff then
      if timer then { p with writer := .dialing }
      else if p.resetc then { p with writer := .dialing, resetc := false }
      else p
    else p
  | .write fails => if p.writer = .writing then p.write marshal fails else p
  | .stop =>
    if p.writer = .writing then { p.onLast TcpPeer.close with writer := .stopped } else { p with writer := .stopped }
  | .read k => { p with conns := p.conns.modify k (Conn.read unmarshal) }
  | .hangUp k => { p with conns := p.conns.modify k (fun c => { c with reading := false }) }

/-! ### One connection -/

def payloads (marshal : Message → Option Bytes) (msgs : List Message) : List Bytes :=
  msgs.map fun m => (marshal m).getD []

def Framed (marshal : Message → Option Bytes) (m : Message) : Prop :=
  ∃ data, marshal m = some data ∧ data.length < 2 ^ 32

/-- The stream is what was written up to some byte, and the read loop has processed a beginning of it. -/
structure Conn.Carries (marshal : Message → Option Bytes) (c : Conn) : Prop where
  framed : ∀ m ∈ c.written, Framed marshal m
  stream : ∃ n, c.stream = (frames (payloads marshal c.written)).take n
  whole : c.isOpen = true → c.stream = frames (payloads marshal c.written)
  taken : ∃ j, c.taken = (frames (payloads marshal (c.written.take j))).length ∧ c.taken ≤ c.stream.length ∧
    c.processed = c.written.take j

theorem frames_append (ps qs : List Bytes) : frames (ps ++ qs) = frames ps ++ frames qs := by
  simp [frames]

/-- A frame comes off a stream that was cut only if all of it is there. -/
theorem readFrameMax_cut {maxPayload k : Nat} {q rest payload left : Bytes} (positive : 0 < maxPayload)
    (word : q.length < 2 ^ 32)
    (read : readFrameMax ((le 4 q.length ++ q ++ rest).take k) maxPayload = .ok (payload, left)) :
    payload = q ∧ (le 4 q.length ++ q ++ rest).take k = le 4 q.length ++ q ++ left := by
  have size : (le 4 q.length ++ q).length = 4 + q.length := by simp
  have whole : readFrameMax ((le 4 q.length ++ q ++ rest.take (k - (4 + q.length)))) maxPayload =
      if maxPayload < q.length then .error .frameTooLarge else .ok (q, rest.take (k - (4 + q.length))) :=
    readFrameMax_writeFrame (writeFrame_eq word) _ positive
  rcases Nat.lt_or_ge k (4 + q.length) with torn | all
  · exfalso
    rw [List.take_append_of_le_length (by omega)] at read
    by_cases low : q.length ≤ maxPayload
    · obtain ⟨e, failed⟩ := readFrameMax_torn positive low word torn
      rw [failed] at read
      cases read
    · -- the header alone is refused
      rw [readFrameMax, if_neg (by omega)] at read
      rcases Nat.lt_or_ge k 4 with early | late
      · obtain ⟨e, failed⟩ : ∃ e, readFull ((le 4 q.length ++ q).take k) 4 = .error e :=
          readFull_short (by rw [List.length_take]; omega)
        rw [failed] at read
        cases read
      · have header : readFull ((le 4 q.length ++ q).take k) 4 = .ok (le 4 q.length, q.take (k - 4)) := by
          rw [List.take_append, List.take_of_length_le (by simpa using late), le_length]
          have front := readFull_append (le 4 q.length) (q.take (k - 4))
          rwa [le_length] at front
        have announced : ofLE (le 4 q.length) = q.length := ofLE_le 4 _ (by norm_num; omega)
        rw [header] at read
        simp only [bind, Except.bind, announced] at read
        rw [if_pos (by omega)] at read
        cases read
  · have cut : (le 4 q.length ++ q ++ rest).take k = le 4 q.length ++ q ++ rest.take (k - (4 + q.length)) := by
      rw [List.take_append, List.take_of_length_le (by omega), size]
    rw [cut, whole] at read
    split at read
    · cases read
    · cases read
      exact ⟨rfl, cut⟩

section

variable {marshal : Message → Option Bytes} {unmarshal : Bytes → Option Message} {c : Conn}

theorem Conn.Carries.close (carries : c.Carries marshal) : (TcpPeer.close c).Carries marshal :=
  ⟨carries.framed, carries.stream, nofun, carries.taken⟩

/-- One more message, of which at least a part gets out. -/
theorem Conn.Carries.write (carries : c.Carries marshal) (isOpen : c.isOpen = true) {m : Message} {data : Bytes}
    (marshalled : marshal m = some data) (word : data.length < 2 ^ 32) (n : Nat) (stays : Bool)
    (all : stays = true → (le 4 data.length ++ data).length ≤ n) :
    ({ c with
      stream := c.stream ++ (le 4 data.length ++ data).take n
      written := c.written ++ [m], isOpen := stays } : Conn).Carries marshal := by
  have bytes : frames (payloads marshal (c.written ++ [m])) =
      frames (payloads marshal c.written) ++ (le 4 data.length ++ data) := by
    rw [payloads, List.map_append, frames_append]
    simp [frames, marshalled, payloads]
  have before := carries.whole isOpen
  refine ⟨fun m' inside => ?_, ⟨(frames (payloads marshal c.written)).length + n, ?_⟩, fun up => ?_, ?_⟩
  · rcases List.mem_append.mp inside with old | new
    · exact carries.framed m' old
    · obtain rfl := List.mem_singleton.mp new
      exact ⟨data, marshalled, word⟩
  · rw [before, bytes, List.take_length_add_append]
  · rw [before, bytes, List.take_of_length_le (all up)]
  · obtain ⟨j, taken, low, processed⟩ := carries.taken
    have longer : c.taken ≤ (c.stream ++ (le 4 data.length ++ data).take n).length := by
      rw [List.length_append]
      omega
    by_cases early : j ≤ c.written.length
    · refine ⟨j, ?_, longer, ?_⟩
      · rw [List.take_append_of_le_length early]
        exact taken
      · rw [List.take_append_of_le_length early]
        exact processed
    · have past : c.written.take j = c.written.take c.written.length := by
        rw [List.take_of_length_le (by omega), List.take_length]
      refine ⟨c.written.length, ?_, longer, ?_⟩
      · rw [List.take_append_of_le_length le_rfl, ← past]
        exact taken
      · rw [List.take_append_of_le_length le_rfl, ← past]
        exact processed

theorem Conn.Carries.ahead (carries : c.Carries marshal) : ∃ j k, c.taken = (frames (payloads marshal (c.written.take j))).length ∧
    c.taken ≤ c.stream.length ∧ c.processed = c.written.take j ∧
    c.stream.drop c.taken = (frames (payloads marshal (c.written.drop j))).take k := by
  obtain ⟨n, stream⟩ := carries.stream
  obtain ⟨j, taken, low, processed⟩ := carries.taken
  refine ⟨j, n - c.taken, taken, low, processed, ?_⟩
  have split : frames (payloads marshal c.written) =
      frames (payloads marshal (c.written.take j)) ++ frames (payloads marshal (c.written.drop j)) := by
    rw [← frames_append, payloads, payloads, payloads, ← List.map_append, List.take_append_drop]
  rw [stream, List.drop_take, split, taken, List.drop_left]

theorem Conn.Carries.read (carries : c.Carries marshal)
    (roundTrip : ∀ m data, marshal m = some data → unmarshal data = some m) : (c.read unmarshal).Carries marshal := by
  unfold Conn.read
  split
  · split
    · next payload left read =>
      obtain ⟨j, k, taken, low, processed, ahead⟩ := carries.ahead
      rw [ahead] at read
      cases due : c.written.drop j with
      | nil =>
        rw [due] at read
        have none : (frames (payloads marshal [])).take k = [] := by simp [payloads, frames]
        rw [none, readFrameMax_nil (by decide)] at read
        cases read
      | cons m later =>
        have here : m ∈ c.written := List.mem_of_mem_drop (by rw [due]; exact List.mem_cons_self)
        obtain ⟨data, marshalled, word⟩ := carries.framed m here
        have first : frames (payloads marshal (c.written.drop j)) =
            le 4 data.length ++ data ++ frames (payloads marshal later) := by
          rw [due, payloads, List.map_cons, frames_cons, marshalled]
          rfl
        rw [first] at read ahead
        obtain ⟨rfl, cut⟩ := readFrameMax_cut (by decide) word read
        have next : c.written.take (j + 1) = c.written.take j ++ [m] := by
          have at_j : c.written[j]? = some m := by
            rw [← List.head?_drop, due]
            rfl
          rw [List.take_add_one, at_j]
          rfl
        have length : c.stream.length - left.length = c.taken + (4 + payload.length) := by
          have total := congrArg List.length (ahead.trans cut)
          simp only [List.length_drop, List.length_append, le_length] at total
          omega
        have moved : c.taken + (4 + payload.length) =
            (frames (payloads marshal (c.written.take (j + 1)))).length := by
          rw [next, payloads, List.map_append, frames_append, List.length_append, taken]
          simp [frames, marshalled, payloads]
        simp only [roundTrip m payload marshalled]
        refine ⟨carries.framed, carries.stream, carries.whole, j + 1, ?_, ?_, ?_⟩
        · exact length.trans moved
        · show c.stream.length - left.length ≤ c.stream.length
          omega
        · show c.processed ++ [m] = c.written.take (j + 1)
          rw [next, processed]
    · exact ⟨carries.framed, carries.stream, carries.whole, carries.taken⟩
    · split
      · exact carries
      · exact ⟨carries.framed, carries.stream, carries.whole, carries.taken⟩
  · exact carries

end

theorem Conn.Carries.isPrefix {marshal : Message → Option Bytes} {c : Conn} (carries : c.Carries marshal) :
    c.processed <+: c.written := by
  obtain ⟨j, _, _, processed⟩ := carries.taken
  rw [processed]
  exact List.take_prefix j c.written

/-! ### One peer -/

def TcpPeer.written (p : TcpPeer) : List Message := (p.conns.reverse.map Conn.written).flatten

structure TcpPeer.Ordered (marshal : Message → Option Bytes) (p : TcpPeer) : Prop where
  conns : ∀ c ∈ p.conns, c.Carries marshal
  last : p.writer = .writing → ∃ c rest, p.conns = c :: rest ∧ c.isOpen = true
  room : p.msgc.length ≤ messageBufferSize
  order : List.Sublist (p.written ++ p.msgc) p.sent
  lossless : p.lossy = false → p.written ++ p.msgc = p.sent

namespace TcpPeer

variable {marshal : Message → Option Bytes} {unmarshal : Bytes → Option Message} {p : TcpPeer}

theorem written_cons {c : Conn} {rest : List Conn} (here : p.conns = c :: rest) :
    p.written = (rest.reverse.map Conn.written).flatten ++ c.written := by
  simp [written, here]

theorem Ordered.offer (ordered : p.Ordered marshal) (m : Message) : (p.offer m).Ordered marshal := by
  unfold TcpPeer.offer
  split
  · next space =>
    refine ⟨ordered.conns, ordered.last, ?_, ?_, fun kept => ?_⟩
    · rw [List.length_append]
      exact space
    · show List.Sublist (p.written ++ (p.msgc ++ [m])) (p.sent ++ [m])
      rw [← List.append_assoc]
      exact ordered.order.append_right [m]
    · show p.written ++ (p.msgc ++ [m]) = p.sent ++ [m]
      rw [← List.append_assoc, ordered.lossless kept]
  · exact ⟨ordered.conns, ordered.last, ordered.room, ordered.order.trans (List.sublist_append_left _ _), nofun⟩

theorem Ordered.send (ordered : p.Ordered marshal) (msgs : List Message) : (p.send msgs).Ordered marshal := by
  unfold TcpPeer.send
  induction msgs generalizing p with
  | nil => exact ordered
  | cons m msgs ih => exact ih (ordered.offer m)

theorem Ordered.drop (ordered : p.Ordered marshal) {m : Message} {rest : List Message} (first : p.msgc = m :: rest) :
    ({ p with msgc := rest, lossy := true } : TcpPeer).Ordered marshal := by
  refine ⟨ordered.conns, ordered.last, ?_, ?_, nofun⟩
  · have room := ordered.room
    rw [first, List.length_cons] at room
    exact Nat.le_of_succ_le room
  · have order := ordered.order
    rw [first] at order
    exact ((List.sublist_cons_self m rest).append_left p.written).trans order

/-- The writer ends its connection. -/
theorem Ordered.closeLast (ordered : p.Ordered marshal) {writer : Writer} (away : writer ≠ .writing) :
    ({ p.onLast close with writer } : TcpPeer).Ordered marshal := by
  unfold onLast
  split
  · exact ⟨ordered.conns, fun writes => absurd writes away, ordered.room, ordered.order, ordered.lossless⟩
  · next c rest here =>
    have same : ({ p with conns := close c :: rest, writer } : TcpPeer).written = p.written := by
      rw [written_cons here, written_cons rfl, close]
    refine ⟨fun c' inside => ?_, fun writes => absurd writes away, ordered.room, ?_, fun kept => ?_⟩
    · rcases List.mem_cons.mp inside with rfl | old
      · exact (ordered.conns c (by rw [here]; exact List.mem_cons_self)).close
      · exact ordered.conns c' (by rw [here]; exact List.mem_cons_of_mem _ old)
    · rw [same]
      exact ordered.order
    · rw [same]
      exact ordered.lossless kept

/-- A message goes from the buffer to the last connection. -/
theorem Ordered.move (ordered : p.Ordered marshal) {m : Message} {rest : List Message} {c c' : Conn} {older : List Conn}
    {writer : Writer} {lossy : Bool} (first : p.msgc = m :: rest) (here : p.conns = c :: older)
    (carries : c'.Carries marshal) (written : c'.written = c.written ++ [m])
    (last : writer = .writing → c'.isOpen = true) (loss : lossy = false → p.lossy = false) :
    ({ p with conns := c' :: older, msgc := rest, writer, lossy } : TcpPeer).Ordered marshal := by
  have same : ({ p with conns := c' :: older, msgc := rest, writer, lossy } : TcpPeer).written ++ rest =
      p.written ++ p.msgc := by
    rw [written_cons here, written_cons rfl, written, first]
    simp
  refine ⟨fun c'' inside => ?_, fun writes => ⟨c', older, rfl, last writes⟩, ?_, ?_, fun kept => ?_⟩
  · rcases List.mem_cons.mp inside with rfl | old
    · exact carries
    · exact ordered.conns c'' (by rw [here]; exact List.mem_cons_of_mem _ old)
  · have room := ordered.room
    rw [first, List.length_cons] at room
    exact Nat.le_of_succ_le room
  · rw [same]
    exact ordered.order
  · rw [same]
    exact ordered.lossless (loss kept)

theorem Ordered.write (ordered : p.Ordered marshal) (writes : p.writer = .writing) (fails : Option Nat) :
    (p.write marshal fails).Ordered marshal := by
  obtain ⟨c, older, here, isOpen⟩ := ordered.last writes
  have carries := ordered.conns c (by rw [here]; exact List.mem_cons_self)
  unfold TcpPeer.write
  split
  · exact ordered
  · next m rest first =>
    cases marshalled : marshal m with
    | none => exact ordered.drop first
    | some data =>
      by_cases word : data.length < 2 ^ 32
      · simp only [writeFrame_eq word, onLast, here]
        cases fails with
        | none =>
          have moved := carries.write isOpen marshalled word (le 4 data.length ++ data).length true (fun _ => le_rfl)
          rw [List.take_length, ← isOpen] at moved
          exact ordered.move first here moved rfl (fun _ => isOpen) (fun kept => kept)
        | some cut =>
          have moved := carries.write isOpen marshalled word cut false nofun
          exact ordered.move first here moved rfl nofun nofun
      · have refused : writeFrame data = .error .frameTooLarge := if_pos (by omega)
        simp only [refused]
        have dropped := (ordered.drop first).closeLast (show Writer.dialing ≠ .writing by nofun)
        have same : ({ p.onLast close with msgc := rest, lossy := true, writer := .dialing } : TcpPeer) =
            { TcpPeer.onLast { p with msgc := rest, lossy := true } close with writer := .dialing } := by
          simp only [onLast, here]
        rw [same]
        exact dropped

theorem Ordered.modify (ordered : p.Ordered marshal) (k : Nat) {f : Conn → Conn}
    (carries : ∀ c, c.Carries marshal → (f c).Carries marshal) (written : ∀ c, (f c).written = c.written)
    (isOpen : ∀ c, (f c).isOpen = c.isOpen) : ({ p with conns := p.conns.modify k f } : TcpPeer).Ordered marshal := by
  have same : ({ p with conns := p.conns.modify k f } : TcpPeer).written = p.written := by
    have each : (p.conns.modify k f).map Conn.written = p.conns.map Conn.written := by
      refine List.ext_getElem? fun i => ?_
      rw [List.getElem?_map, List.getElem?_map, List.getElem?_modify]
      cases p.conns[i]? with
      | none => rfl
      | some c =>
        by_cases at_k : k = i
        · simp [at_k, written]
        · simp [at_k]
    rw [TcpPeer.written, TcpPeer.written, List.map_reverse, each, List.map_reverse]
  refine ⟨fun c' inside => ?_, fun writes => ?_, ordered.room, ?_, fun kept => ?_⟩
  · obtain ⟨i, found⟩ := List.mem_iff_getElem?.mp inside
    rw [List.getElem?_modify] at found
    cases old : p.conns[i]? with
    | none => simp [old] at found
    | some c =>
      have good := ordered.conns c (List.mem_of_getElem? old)
      rw [old] at found
      by_cases at_k : k = i
      · simp only [at_k, if_true, Option.map_eq_map, Option.map_some, Option.some.injEq] at found
        rw [← found]
        exact carries c good
      · simp only [at_k, if_false, Option.map_eq_map, Option.map_some, Option.some.injEq] at found
        rw [← found]
        exact good
  · obtain ⟨c, rest, here, up⟩ := ordered.last writes
    cases k with
    | zero => exact ⟨f c, rest, by simp [here], (isOpen c).trans up⟩
    | succ k => exact ⟨c, rest.modify k f, by simp [here], up⟩
  · rw [same]
    exact ordered.order
  · rw [same]
    exact ordered.lossless kept

theorem read_written (c : Conn) : (c.read unmarshal).written = c.written ∧ (c.read unmarshal).isOpen = c.isOpen := by
  unfold Conn.read
  split
  · split
    · dsimp only
      split <;> exact ⟨rfl, rfl⟩
    · exact ⟨rfl, rfl⟩
    · split <;> exact ⟨rfl, rfl⟩
  · exact ⟨rfl, rfl⟩

theorem Ordered.step (ordered : p.Ordered marshal) (roundTrip : ∀ m data, marshal m = some data → unmarshal data = some m)
    (e : PeerEvent) : (p.step marshal unmarshal e).Ordered marshal := by
  -- events that change neither the messages nor the connections
  have away {writer : Writer} {resetc : Bool} {failures : Nat} (idle : writer ≠ .writing) :
      ({ p with writer, resetc, failures } : TcpPeer).Ordered marshal :=
    ⟨ordered.conns, fun writes => absurd writes idle, ordered.room, ordered.order, ordered.lossless⟩
  cases e with
  | send msgs => exact ordered.send msgs
  | reset => exact ⟨ordered.conns, ordered.last, ordered.room, ordered.order, ordered.lossless⟩
  | dial ok =>
    rw [TcpPeer.step]
    split
    · split
      · have same : ({ p with writer := .writing, failures := 0, conns := {} :: p.conns } : TcpPeer).written = p.written := by
          rw [written_cons rfl, List.append_nil, TcpPeer.written]
        refine ⟨fun c inside => ?_, fun _ => ⟨{}, p.conns, rfl, rfl⟩, ordered.room, ?_, fun kept => ?_⟩
        · rcases List.mem_cons.mp inside with rfl | old
          · exact ⟨nofun, ⟨0, rfl⟩, fun _ => rfl, 0, rfl, le_rfl, rfl⟩
          · exact ordered.conns c old
        · rw [same]
          exact ordered.order
        · rw [same]
          exact ordered.lossless kept
      · exact away nofun
    · exact ordered
  | wake timer =>
    rw [TcpPeer.step]
    split
    · split
      · exact away nofun
      · split
        · exact away nofun
        · exact ordered
    · exact ordered
  | write fails =>
    rw [TcpPeer.step]
    split
    · next writes => exact ordered.write writes fails
    · exact ordered
  | stop =>
    rw [TcpPeer.step]
    split
    · exact ordered.closeLast nofun
    · exact away nofun
  | read k =>
    exact ordered.modify k (fun c carries => carries.read roundTrip) (fun c => (read_written c).1) (fun c => (read_written c).2)
  | hangUp k =>
    exact ordered.modify k (fun c carries => ⟨carries.framed, carries.stream, carries.whole, carries.taken⟩) (fun _ => rfl)
      (fun _ => rfl)

theorem ordered_new : ({} : TcpPeer).Ordered marshal :=
  ⟨nofun, nofun, Nat.zero_le _, List.Sublist.refl _, fun _ => rfl⟩

end TcpPeer

/-! ### The transport of a node -/

structure RaftTransport where
  peers : Nat → Option TcpPeer := fun _ => none
  stopped : Bool := false
  /-- What `Send` was called with while the transport was running. -/
  handed : List Message := []

inductive TransportEvent where
  | addPeer (id : Nat)
  | send (msgs : List Message)
  | stop
  /-- A step of the writer of a peer, of its connections or of the read loops at their other ends. -/
  | peer (id : Nat) (e : PeerEvent)

namespace RaftTransport

def groups (msgs : List Message) : Nat → List Message :=
  msgs.foldl (fun groups m => Function.update groups m.toId (groups m.toId ++ [m])) (fun _ => [])

def send (t : RaftTransport) (msgs : List Message) : RaftTransport :=
  if t.stopped then t
  else if msgs = [] then t
  else
    { t with
      -- a peer without messages is not called, which is a call with no message
      peers := fun id => (t.peers id).map (fun p => p.send (groups msgs id))
      handed := t.handed ++ msgs }

def step (marshal : Message → Option Bytes) (unmarshal : Bytes → Option Message) (t : RaftTransport) :
    TransportEvent → RaftTransport
  | .addPeer id => if (t.peers id).isSome then t else { t with peers := Function.update t.peers id (some {}) }
  | .send msgs => t.send msgs
  | .stop => { t with stopped := true, peers := fun id => (t.peers id).map (fun p => p.step marshal unmarshal .stop) }
  -- only the transport calls `Send` of a peer
  | .peer _ (.send _) => t
  | .peer id e =>
    { t with peers := Function.update t.peers id ((t.peers id).map (fun p => p.step marshal unmarshal e)) }

theorem groups_eq (msgs : List Message) (id : Nat) : groups msgs id = msgs.filter (fun m => decide (m.toId = id)) := by
  have each (groups : Nat → List Message) :
      msgs.foldl (fun groups m => Function.update groups m.toId (groups m.toId ++ [m])) groups id =
        groups id ++ msgs.filter (fun m => decide (m.toId = id)) := by
    induction msgs generalizing groups with
    | nil => simp
    | cons m msgs ih =>
      rw [List.foldl_cons, ih]
      by_cases mine : m.toId = id
      · subst mine
        simp
      · rw [Function.update_of_ne (Ne.symm mine), List.filter_cons_of_neg (by simpa using mine)]
  rw [groups, each, List.nil_append]

structure Links (marshal : Message → Option Bytes) (t : RaftTransport) (id : Nat) (p : TcpPeer) : Prop where
  ordered : p.Ordered marshal
  sent : p.sent <:+ t.handed.filter (fun m => decide (m.toId = id))

variable {marshal : Message → Option Bytes} {unmarshal : Bytes → Option Message}

theorem offer_sent (p : TcpPeer) (m : Message) : (p.offer m).sent = p.sent ++ [m] := by
  unfold TcpPeer.offer
  split <;> rfl

theorem send_sent (p : TcpPeer) (msgs : List Message) : (p.send msgs).sent = p.sent ++ msgs := by
  unfold TcpPeer.send
  induction msgs generalizing p with
  | nil => simp
  | cons m msgs ih => rw [List.foldl_cons, ih, offer_sent, List.append_assoc, List.singleton_append]

theorem onLast_sent (p : TcpPeer) (f : Conn → Conn) : (p.onLast f).sent = p.sent := by
  unfold TcpPeer.onLast
  split <;> rfl

theorem write_sent (p : TcpPeer) (fails : Option Nat) : (p.write marshal fails).sent = p.sent := by
  unfold TcpPeer.write
  split
  · rfl
  · split
    · rfl
    · split
      · exact onLast_sent p _
      · split <;> exact onLast_sent p _

/-- Only `Send` hands messages to a peer. -/
theorem step_sent (p : TcpPeer) {e : PeerEvent} (own : ∀ msgs, e ≠ .send msgs) :
    (p.step marshal unmarshal e).sent = p.sent := by
  cases e with
  | send msgs => exact absurd rfl (own msgs)
  | reset => rfl
  | dial ok =>
    rw [TcpPeer.step]
    split
    · split <;> rfl
    · rfl
  | wake timer =>
    rw [TcpPeer.step]
    split
    · split
      · rfl
      · split <;> rfl
    · rfl
  | write fails =>
    rw [TcpPeer.step]
    split
    · exact write_sent p fails
    · rfl
  | stop =>
    rw [TcpPeer.step]
    split
    · exact onLast_sent p _
    · rfl
  | read k => rfl
  | hangUp k => rfl

theorem links_step {t : RaftTransport} (links : ∀ id p, t.peers id = some p → Links marshal t id p)
    (roundTrip : ∀ m data, marshal m = some data → unmarshal data = some m) (e : TransportEvent) :
    ∀ id p, (t.step marshal unmarshal e).peers id = some p → Links marshal (t.step marshal unmarshal e) id p := by
  -- a step of one peer that is not a `Send`
  have moved {id : Nat} {q : TcpPeer} {e : PeerEvent} (here : t.peers id = some q) (own : ∀ msgs, e ≠ .send msgs) :
      (q.step marshal unmarshal e).Ordered marshal ∧
        (q.step marshal unmarshal e).sent <:+ t.handed.filter (fun m => decide (m.toId = id)) := by
    refine ⟨(links id q here).ordered.step roundTrip e, ?_⟩
    rw [step_sent q own]
    exact (links id q here).sent
  intro id p here
  cases e with
  | addPeer new =>
    rw [step] at here ⊢
    split at here
    · next known =>
      rw [if_pos known]
      exact links id p here
    · next unknown =>
      rw [if_neg unknown]
      by_cases same : id = new
      · subst same
        obtain rfl : {} = p := Option.some.inj ((Function.update_self id (some ({} : TcpPeer)) t.peers).symm.trans here)
        exact ⟨TcpPeer.ordered_new, List.nil_suffix⟩
      · obtain ⟨ordered, sent⟩ := links id p ((Function.update_of_ne same _ _).symm.trans here)
        exact ⟨ordered, sent⟩
  | send msgs =>
    rw [step, send] at here ⊢
    by_cases off : t.stopped = true
    · rw [if_pos off] at here ⊢
      exact links id p here
    · rw [if_neg off] at here ⊢
      by_cases nothing : msgs = []
      · rw [if_pos nothing] at here ⊢
        exact links id p here
      · rw [if_neg nothing] at here ⊢
        obtain ⟨q, before, rfl⟩ := Option.map_eq_some_iff.mp here
        obtain ⟨ordered, rest, more⟩ := links id q before
        refine ⟨ordered.send _, rest, ?_⟩
        rw [send_sent, groups_eq, ← List.append_assoc, more, List.filter_append]
  | stop =>
    obtain ⟨q, before, rfl⟩ := Option.map_eq_some_iff.mp here
    obtain ⟨ordered, sent⟩ := moved before (show ∀ msgs, PeerEvent.stop ≠ .send msgs by nofun)
    exact ⟨ordered, sent⟩
  | peer target e =>
    by_cases sends : ∃ msgs, e = .send msgs
    · obtain ⟨msgs, rfl⟩ := sends
      exact links id p here
    · have own : ∀ msgs, e ≠ .send msgs := fun msgs same => sends ⟨msgs, same⟩
      have next : t.step marshal unmarshal (.peer target e) = { t with
          peers := Function.update t.peers target ((t.peers target).map (fun p => p.step marshal unmarshal e)) } := by
        cases e with
        | send msgs => exact absurd rfl (own msgs)
        | _ => rfl
      rw [next] at here ⊢
      by_cases same : id = target
      · subst same
        simp only [Function.update_self] at here
        obtain ⟨q, before, rfl⟩ := Option.map_eq_some_iff.mp here
        obtain ⟨ordered, sent⟩ := moved before own
        exact ⟨ordered, sent⟩
      · obtain ⟨ordered, sent⟩ := links id p ((Function.update_of_ne same _ _).symm.trans here)
        exact ⟨ordered, sent⟩

/-- What raft processes from a connection is a beginning of what was written to it; the connections of a peer
together with its buffer carry, in order and none twice, messages that were sent to it, and all of them if none
was dropped. -/
theorem messages_keep_their_order (marshal : Message → Option Bytes) (unmarshal : Bytes → Option Message)
    (roundTrip : ∀ m data, marshal m = some data → unmarshal data = some m) (events : List TransportEvent)
    (t : RaftTransport) (reached : t = Runs.exec (step marshal unmarshal) {} events) (id : Nat) (p : TcpPeer)
    (here : t.peers id = some p) :
    p.msgc.length ≤ messageBufferSize ∧ (∀ c ∈ p.conns, c.processed <+: c.written) ∧
      List.Sublist (p.written ++ p.msgc) (t.handed.filter (fun m => decide (m.toId = id))) ∧
      p.sent <:+ t.handed.filter (fun m => decide (m.toId = id)) ∧ (p.lossy = false → p.written ++ p.msgc = p.sent) := by
  have any : Runs.Along (step marshal unmarshal) (fun _ _ => True) {} events :=
    Runs.along_of_forall (step marshal unmarshal) (fun _ _ => trivial)
  have links : ∀ id p, t.peers id = some p → Links marshal t id p := by
    rw [reached]
    exact Runs.invariant (step marshal unmarshal) (fun t => ∀ id p, t.peers id = some p → Links marshal t id p)
      (fun _ e links _ => links_step links roundTrip e) nofun any
  obtain ⟨ordered, sent⟩ := links id p here
  exact ⟨ordered.room, fun c inside => (ordered.conns c inside).isPrefix, ordered.order.trans sent.sublist, sent,
    ordered.lossless⟩

def beatTo (id commit : Nat) : Message := { type := .msgHeartbeat, fromId := 1, toId := id, commit }

/-- Receiver and commit index, a byte each. -/
def marshalBeat (m : Message) : Option Bytes :=
  if m = beatTo m.toId m.commit ∧ m.toId < 256 ∧ m.commit < 256 then
    some [UInt8.ofNat m.toId, UInt8.ofNat m.commit]
  else none

def unmarshalBeat : Bytes → Option Message
  | [id, commit] => some (beatTo id.toNat commit.toNat)
  | _ => none

theorem unmarshalBeat_marshalBeat {m : Message} {data : Bytes} (marshalled : marshalBeat m = some data) :
    unmarshalBeat data = some m := by
  unfold marshalBeat at marshalled
  split at marshalled
  · next beat =>
    obtain ⟨same, small, low⟩ := beat
    cases marshalled
    simp only [unmarshalBeat, UInt8.toNat_ofNat_of_lt' small, UInt8.toNat_ofNat_of_lt' low]
    exact congrArg some same.symm
  · cases marshalled

def brokenLink : List TransportEvent :=
  [.addPeer 2, .send [beatTo 2 1, beatTo 3 1, beatTo 2 2], .peer 2 (.dial true), .peer 2 (.write none),
    .peer 2 (.write (some 3)), .send [beatTo 2 3], .peer 2 (.dial true), .peer 2 (.write none), .peer 2 (.read 0),
    .peer 2 (.read 1), .peer 2 (.read 1)]

theorem brokenLink_in_order : ∃ t p, t = Runs.exec (step marshalBeat unmarshalBeat) {} brokenLink ∧
    t.peers 2 = some p ∧ p.conns.map Conn.processed = [[beatTo 2 3], [beatTo 2 1]] ∧
    p.conns.map Conn.written = [[beatTo 2 3], [beatTo 2 1, beatTo 2 2]] ∧
    List.Sublist (p.written ++ p.msgc) (t.handed.filter (fun m => decide (m.toId = 2))) := by
  obtain ⟨p, here, processed, written⟩ : ∃ p,
      (Runs.exec (step marshalBeat unmarshalBeat) {} brokenLink).peers 2 = some p ∧
        p.conns.map Conn.processed = [[beatTo 2 3], [beatTo 2 1]] ∧
        p.conns.map Conn.written = [[beatTo 2 3], [beatTo 2 1, beatTo 2 2]] :=
    ⟨_, rfl, by decide +kernel, by decide +kernel⟩
  exact ⟨_, p, rfl, here, processed, written, (messages_keep_their_order marshalBeat unmarshalBeat
    (fun _ _ => unmarshalBeat_marshalBeat) brokenLink _ rfl 2 p here).2.2.1⟩

end RaftTransport

end Peers

end Transport

end Kvgo

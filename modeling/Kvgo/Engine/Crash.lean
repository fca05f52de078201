import Kvgo.Engine.IndexFile

/-! Flushes and crashes. A flush encodes its batch into two buffers that keep what an earlier flush
left in them, appends the values, then appends the records. A crash can cut either write at
any byte; opening the files again then finds whatever is there. -/

namespace Kvgo

open Slices

namespace Engine

/-- The loop of `flush`: records and values go into their buffers, offsets run along. -/
def encodeRequests : List WriteRequest → Bytes → Bytes → Nat → Nat → Nat → Option (Bytes × Bytes × Nat)
  | [], idxBuf, valBuf, _, _, valueFileOff => some (idxBuf, valBuf, valueFileOff)
  | r :: rest, idxBuf, valBuf, idxBufOff, valBufOff, valueFileOff => do
    let dst ← slice idxBuf idxBufOff idxBuf.length
    let dst ← encodeInto dst r.key r.value.length valueFileOff
    let valBuf ← copy valBuf valBufOff r.value
    encodeRequests rest (idxBuf.take idxBufOff ++ dst) valBuf (idxBufOff + walIndexLen r.key.length)
      (valBufOff + r.value.length) (valueFileOff + r.value.length)

/-- `reuseIdxBuf` and `reuseValBuf`: the buffer of the committer, if it is large enough. -/
def reuseBuf (buf : Bytes) (size : Nat) : Bytes :=
  if buf.length < size then List.replicate size 0 else buf.take size

def keepBuf (buf used : Bytes) : Bytes :=
  if buf.length < used.length then used else used ++ buf.drop used.length

/-- A shard in a running process, with the buffers of its group committer. -/
structure Running where
  shard : Shard
  walIndexBuf : Bytes := []
  walValueBuf : Bytes := []

def Running.encode (r : Running) (batch : List WriteRequest) : Option (Bytes × Bytes × Nat) :=
  encodeRequests batch (reuseBuf r.walIndexBuf (batch.map (fun q => walIndexLen q.key.length)).sum)
    (reuseBuf r.walValueBuf (batch.map (fun q => q.value.length)).sum) 0 0 r.shard.valueOffset

def recordsOf (valueFileOff : Nat) (batch : List WriteRequest) : List (IndexEntry × Bytes) :=
  (Shard.encodeBatch valueFileOff batch).zip (batch.map WriteRequest.value)

/-- The two files, the process that has them open, and all records that were ever handed to
`writeIndex`, each with its value. -/
structure Host where
  index : Bytes := []
  values : Bytes := []
  running : Option Running := none
  written : List (IndexEntry × Bytes) := []

namespace Host

def flush (h : Host) (batch : List WriteRequest) : Option Host := do
  let r ← h.running
  let (idxBuf, valBuf, valueFileOff) ← r.encode batch
  let s ← r.shard.writeValue valBuf
  some {
    index := h.index ++ idxBuf
    values := s.valueFile
    running := some {
      shard := { s with
        indexFile := s.indexFile ++ Shard.encodeBatch r.shard.valueOffset batch
        valueOffset := valueFileOff }.applySync batch
      walIndexBuf := keepBuf r.walIndexBuf idxBuf
      walValueBuf := keepBuf r.walValueBuf valBuf }
    written := h.written ++ recordsOf r.shard.valueOffset batch }

/-- The process ends after the first `n` bytes of the value write. -/
def crashInValue (h : Host) (batch : List WriteRequest) (n : Nat) : Option Host := do
  let r ← h.running
  let (_, valBuf, _) ← r.encode batch
  some { h with
    values := h.values ++ (valBuf.take n).take (2 ^ 63 - 1 - h.values.length)
    running := none }

/-- The process ends after the value write and the first `n` bytes of the index write. -/
def crashInIndex (h : Host) (batch : List WriteRequest) (n : Nat) : Option Host := do
  let r ← h.running
  let (idxBuf, valBuf, _) ← r.encode batch
  let s ← r.shard.writeValue valBuf
  some {
    index := h.index ++ idxBuf.take n
    values := s.valueFile
    running := none
    written := h.written ++ recordsOf r.shard.valueOffset batch }

/-- The files are opened; after an `ErrCorruption` nothing runs. -/
def openFiles (h : Host) : Host :=
  { h with
    index := (openShard h.index h.values).2
    running := (openShard h.index h.values).1.map (fun shard => { shard }) }

end Host

inductive HostEvent where
  | openFiles
  | flush (batch : List WriteRequest)
  | crashInValue (batch : List WriteRequest) (n : Nat)
  | crashInIndex (batch : List WriteRequest) (n : Nat)

def HostEvent.batch : HostEvent → List WriteRequest
  | .openFiles => []
  | .flush batch | .crashInValue batch _ | .crashInIndex batch _ => batch

def Host.step (h : Host) : HostEvent → Host
  | .openFiles => if h.running.isSome then h else h.openFiles
  | .flush batch => (h.flush batch).getD { h with running := none }
  | .crashInValue batch n => (h.crashInValue batch n).getD { h with running := none }
  | .crashInIndex batch n => (h.crashInIndex batch n).getD { h with running := none }

/-! The buffers of a flush. -/

theorem encodeRequests_eq (batch : List WriteRequest) {done stale values old : Bytes} (valueFileOff : Nat)
    (room : stale.length = (batch.map (fun q => walIndexLen q.key.length)).sum)
    (space : old.length = (batch.map (fun q => q.value.length)).sum) :
    encodeRequests batch (done ++ stale) (values ++ old) done.length values.length valueFileOff =
      some (done ++ indexBytes (Shard.encodeBatch valueFileOff batch),
        values ++ (batch.map WriteRequest.value).flatten,
        valueFileOff + (batch.map WriteRequest.value).flatten.length) := by
  induction batch generalizing done stale values old valueFileOff with
  | nil =>
    obtain rfl := List.length_eq_zero_iff.mp room
    obtain rfl := List.length_eq_zero_iff.mp space
    simp [encodeRequests, Shard.encodeBatch]
  | cons r rest ih =>
    rw [List.map_cons, List.sum_cons] at room space
    have tail : slice (done ++ stale) done.length (done ++ stale).length = some stale := by
      rw [slice, if_pos ⟨by simp, le_rfl⟩]
      simp
    have record := entryBytes_length (encodeEntry r.key r.value.length valueFileOff)
    have left : (stale.drop (walIndexLen r.key.length)).length =
        (rest.map (fun q => walIndexLen q.key.length)).sum := by
      rw [List.length_drop]
      omega
    have free : (old.drop r.value.length).length = (rest.map (fun q => q.value.length)).sum := by
      rw [List.length_drop]
      omega
    -- the rest of the batch goes behind what is encoded now
    have next := @ih (done ++ entryBytes (encodeEntry r.key r.value.length valueFileOff)) _
      (values ++ r.value) _ (valueFileOff + r.value.length) left free
    rw [List.length_append, List.length_append, record] at next
    simp only [encodeRequests, Option.bind_eq_bind, tail, Option.bind_some,
      encodeInto_eq r.key r.value.length valueFileOff (show walIndexLen r.key.length ≤ stale.length by omega),
      copy_append rfl (show r.value.length ≤ old.length by omega), List.take_left]
    rw [← List.append_assoc]
    refine next.trans ?_
    simp only [Shard.encodeBatch, indexBytes_cons, List.map_cons, List.flatten_cons, List.length_append,
      List.append_assoc, Nat.add_assoc]

theorem reuseBuf_length (buf : Bytes) (size : Nat) : (reuseBuf buf size).length = size := by
  unfold reuseBuf
  split
  · exact List.length_replicate
  · rw [List.length_take]
    omega

theorem Running.encode_eq (r : Running) (batch : List WriteRequest) :
    r.encode batch = some (indexBytes (Shard.encodeBatch r.shard.valueOffset batch),
      (batch.map WriteRequest.value).flatten,
      r.shard.valueOffset + (batch.map WriteRequest.value).flatten.length) := by
  have all := @encodeRequests_eq batch [] _ [] _ r.shard.valueOffset
    (reuseBuf_length r.walIndexBuf (batch.map (fun q => walIndexLen q.key.length)).sum)
    (reuseBuf_length r.walValueBuf (batch.map (fun q => q.value.length)).sum)
  simpa only [Running.encode, List.nil_append, List.length_nil] using all

/-- The flush of the bytes is the flush of the records, and the index file grows by their encoding. -/
theorem Host.flush_some {h h' : Host} {batch : List WriteRequest} (done : h.flush batch = some h') :
    ∃ r s, h.running = some r ∧ r.shard.flush batch = some s ∧
      h'.index = h.index ++ indexBytes (Shard.encodeBatch r.shard.valueOffset batch) ∧
      h'.values = s.valueFile ∧ (∃ r', h'.running = some r' ∧ r'.shard = s) ∧
      h'.written = h.written ++ recordsOf r.shard.valueOffset batch := by
  simp only [Host.flush, Option.bind_eq_bind, Option.bind_eq_some_iff, Option.some.injEq] at done
  obtain ⟨r, running, encoded, buffers, mid, wrote, rfl⟩ := done
  rw [r.encode_eq] at buffers
  obtain rfl := Option.some.inj buffers
  refine ⟨r, _, running, ?_, rfl, ?_, ⟨_, rfl, rfl⟩, rfl⟩
  · simp only [Shard.flush, Option.bind_eq_bind, wrote, Option.bind_some]
  · dsimp only
    rw [(Shard.applySync_files _ batch).2.1]

theorem Host.crashInValue_some {h h' : Host} {batch : List WriteRequest} {n : Nat}
    (done : h.crashInValue batch n = some h') :
    ∃ part, h' = { h with values := h.values ++ part, running := none } ∧
      part.length ≤ 2 ^ 63 - 1 - h.values.length := by
  simp only [Host.crashInValue, Option.bind_eq_bind, Option.bind_eq_some_iff, Option.some.injEq] at done
  obtain ⟨r, _, encoded, _, rfl⟩ := done
  exact ⟨_, rfl, List.length_take_le _ _⟩

theorem Host.crashInIndex_some {h h' : Host} {batch : List WriteRequest} {n : Nat}
    (done : h.crashInIndex batch n = some h') :
    ∃ r s, h.running = some r ∧ r.shard.flush batch = some s ∧
      h' = {
        index := h.index ++ (indexBytes (Shard.encodeBatch r.shard.valueOffset batch)).take n
        values := s.valueFile
        running := none
        written := h.written ++ recordsOf r.shard.valueOffset batch } := by
  simp only [Host.crashInIndex, Option.bind_eq_bind, Option.bind_eq_some_iff, Option.some.injEq] at done
  obtain ⟨r, running, encoded, buffers, mid, wrote, rfl⟩ := done
  rw [r.encode_eq] at buffers
  obtain rfl := Option.some.inj buffers
  refine ⟨r, { mid with
    indexFile := mid.indexFile ++ Shard.encodeBatch r.shard.valueOffset batch
    valueOffset := r.shard.valueOffset + (batch.map WriteRequest.value).flatten.length }.applySync batch,
    running, ?_, ?_⟩
  · simp only [Shard.flush, Option.bind_eq_bind, wrote, Option.bind_some]
  · rw [(Shard.applySync_files _ batch).2.1]

/-! What the records denote. -/

structure Placed (values : Bytes) (ie : IndexEntry) (value : Bytes) : Prop where
  size : ie.valueSize = value.length
  bound : ie.valueOffset + ie.valueSize ≤ values.length
  slice : (values.drop ie.valueOffset).take ie.valueSize = value

theorem Placed.grow {values : Bytes} {ie : IndexEntry} {value : Bytes} (placed : Placed values ie value)
    (more : Bytes) : Placed (values ++ more) ie value := by
  have bound := placed.bound
  refine ⟨placed.size, by rw [List.length_append]; omega, ?_⟩
  rw [List.drop_append_of_le_length (by omega), List.take_append_of_le_length (by rw [List.length_drop]; omega)]
  exact placed.slice

theorem placed_here {file : Bytes} {r : WriteRequest} (room : file.length < 2 ^ 63)
    (small : r.value.length < 2 ^ 32) :
    Placed (file ++ r.value) (encodeEntry r.key r.value.length file.length) r.value := by
  have size : r.value.length % 2 ^ 32 = r.value.length := Nat.mod_eq_of_lt small
  have offset : file.length % 2 ^ 64 = file.length := Nat.mod_eq_of_lt (by omega)
  refine ⟨size, ?_, ?_⟩
  · simp only [encodeEntry, size, offset, List.length_append, le_refl]
  · simp only [encodeEntry, size, offset, List.drop_left, List.take_length]

def Small (batch : List WriteRequest) : Prop :=
  ∀ r ∈ batch, r.key.length < 2 ^ 32 ∧ r.value.length < 2 ^ 32

instance (batch : List WriteRequest) : Decidable (Small batch) :=
  inferInstanceAs (Decidable (∀ r ∈ batch, _))

theorem recordsOf_placed {file : Bytes} {batch : List WriteRequest} (small : Small batch)
    (room : file.length + (batch.map WriteRequest.value).flatten.length < 2 ^ 63) :
    ∀ p ∈ recordsOf file.length batch,
      Placed (file ++ (batch.map WriteRequest.value).flatten) p.1 p.2 ∧ Fits p.1 := by
  induction batch generalizing file with
  | nil => simp [recordsOf, Shard.encodeBatch]
  | cons r rest ih =>
    simp only [List.map_cons, List.flatten_cons, List.length_append] at room ⊢
    intro p inside
    obtain ⟨keyFits, valueFits⟩ := small r (by simp)
    rcases List.mem_cons.mp inside with rfl | later
    · rw [← List.append_assoc]
      exact ⟨(placed_here (by omega) valueFits).grow _,
        keyFits, Nat.mod_lt _ (by norm_num), Nat.mod_lt _ (by norm_num)⟩
    · have small : Small rest := fun q member => small q (by simp [member])
      have behind := @ih (file ++ r.value) small (by rw [List.length_append]; omega) p
        (by rwa [List.length_append])
      rwa [List.append_assoc] at behind

theorem recordsOf_fst (offset : Nat) (batch : List WriteRequest) :
    (recordsOf offset batch).map Prod.fst = Shard.encodeBatch offset batch := by
  have length : (Shard.encodeBatch offset batch).length ≤ (batch.map WriteRequest.value).length := by
    induction batch generalizing offset with
    | nil => simp [Shard.encodeBatch]
    | cons r rest ih => simpa [Shard.encodeBatch] using ih (offset + r.value.length)
  exact List.map_fst_zip length

/-- The records in the index file are a part of those that were written, cut at some byte. -/
structure Host.Sound (h : Host) : Prop where
  room : h.values.length < 2 ^ 63
  placed : ∀ p ∈ h.written, Placed h.values p.1 p.2 ∧ Fits p.1
  index : ∃ entries, (∀ ie ∈ entries, ∃ v, (ie, v) ∈ h.written) ∧ ∃ n, h.index = (indexBytes entries).take n
  running : ∀ r, h.running = some r → r.shard.valueFile = h.values ∧ r.shard.valueOffset = h.values.length ∧
    ∃ entries, (∀ ie ∈ entries, ∃ v, (ie, v) ∈ h.written) ∧ h.index = indexBytes entries

namespace Host

variable {h h' : Host} {batch : List WriteRequest} {n : Nat}

theorem Sound.ends (sound : h.Sound) : Sound { h with running := none } :=
  ⟨sound.room, sound.placed, sound.index, fun _ up => by cases up⟩

/-- The two writes of a flush, the second of them cut: all records written so far are placed, and
the index file is still a cut of them. -/
theorem Sound.writes (sound : h.Sound) {r : Running} {s : Shard} (running : h.running = some r)
    (small : Small batch) (done : r.shard.flush batch = some s) :
    s.valueFile.length < 2 ^ 63 ∧ s.valueOffset = s.valueFile.length ∧
      (∀ p ∈ h.written ++ recordsOf r.shard.valueOffset batch, Placed s.valueFile p.1 p.2 ∧ Fits p.1) ∧
      ∃ entries, (∀ ie ∈ entries, ∃ v, (ie, v) ∈ h.written ++ recordsOf r.shard.valueOffset batch) ∧
        h.index ++ indexBytes (Shard.encodeBatch r.shard.valueOffset batch) = indexBytes entries := by
  obtain ⟨file, offset, entries, known, index⟩ := sound.running r running
  have flushed := Shard.flush_eq_some done
  have values := flushed.values
  have room := flushed.room
  rw [file] at values room
  refine ⟨by rw [values, List.length_append]; exact room, ?_, fun p inside => ?_,
    entries ++ Shard.encodeBatch r.shard.valueOffset batch, fun ie inside => ?_, ?_⟩
  · rw [flushed.offset, values, offset, List.length_append]
  · rw [values]
    rcases List.mem_append.mp inside with old | new
    · exact ⟨(sound.placed p old).1.grow _, (sound.placed p old).2⟩
    · rw [offset] at new
      exact recordsOf_placed small room p new
  · rcases List.mem_append.mp inside with old | new
    · obtain ⟨v, there⟩ := known ie old
      exact ⟨v, List.mem_append_left _ there⟩
    · rw [← recordsOf_fst] at new
      obtain ⟨⟨_, v⟩, there, rfl⟩ := List.mem_map.mp new
      exact ⟨v, List.mem_append_right _ there⟩
  · rw [index, indexBytes_append]

theorem Sound.flush (sound : h.Sound) (small : Small batch) (done : h.flush batch = some h') : h'.Sound := by
  obtain ⟨r, s, running, flushed, index, values, ⟨r', up, rfl⟩, written⟩ := flush_some done
  obtain ⟨room, offset, placed, entries, known, bytes⟩ := sound.writes running small flushed
  rw [← index] at bytes
  rw [← values] at room placed
  rw [← written] at placed known
  refine ⟨room, placed, ⟨entries, known, (indexBytes entries).length, ?_⟩, fun q there => ?_⟩
  · rw [bytes, List.take_length]
  · rw [up] at there
    cases there
    exact ⟨values.symm, by rw [offset, values], entries, known, bytes⟩

theorem Sound.crashInIndex (sound : h.Sound) (small : Small batch)
    (done : h.crashInIndex batch n = some h') : h'.Sound := by
  obtain ⟨r, s, running, flushed, rfl⟩ := crashInIndex_some done
  obtain ⟨room, offset, placed, entries, known, bytes⟩ := sound.writes running small flushed
  refine ⟨room, placed, ⟨entries, known, h.index.length + n, ?_⟩, fun _ up => by cases up⟩
  rw [← bytes, List.take_length_add_append]

theorem Sound.crashInValue (sound : h.Sound) (done : h.crashInValue batch n = some h') : h'.Sound := by
  obtain ⟨part, rfl, short⟩ := crashInValue_some done
  have room := sound.room
  refine ⟨?_, fun p inside => ⟨(sound.placed p inside).1.grow _, (sound.placed p inside).2⟩, sound.index,
    fun _ up => by cases up⟩
  rw [List.length_append]
  omega

/-- Opening truncates the index file or finds that it ends with a whole record. -/
theorem Sound.openFiles (sound : h.Sound) : h.openFiles.Sound := by
  obtain ⟨entries, known, m, cut⟩ := sound.index
  have fits : ∀ ie ∈ entries, Fits ie := fun ie inside =>
    let ⟨_, there⟩ := known ie inside
    (sound.placed _ there).2
  obtain ⟨_, clean⟩ := readIndex_take fits m
  rw [← cut] at clean
  cases read : readIndex h.index with
  | mk found torn =>
    cases torn with
    | some position =>
      have closed : openShard h.index h.values = (none, h.index.take position) := by
        rw [openShard, read]
      refine ⟨sound.room, sound.placed, ⟨entries, known, min position m, ?_⟩, fun r up => ?_⟩
      · rw [Host.openFiles, closed, cut, List.take_take]
      · rw [Host.openFiles, closed] at up
        cases up
    | none =>
      rw [read] at clean
      have opened : openShard h.index h.values = (some (Shard.reopen found h.values), h.index) := by
        rw [openShard, read]
      have replayed := Shard.reopen_replayed found h.values
      refine ⟨sound.room, sound.placed, ?_, fun r up => ?_⟩
      · rw [Host.openFiles, opened]
        exact sound.index
      · rw [Host.openFiles, opened] at up
        cases up
        refine ⟨replayed.values, replayed.offset, complete entries m, fun ie inside => ?_, ?_⟩
        · exact known ie ((complete_isPrefix entries m).subset inside)
        · rw [Host.openFiles, opened]
          exact clean rfl

theorem Sound.step (sound : h.Sound) {e : HostEvent} (small : Small e.batch) : (h.step e).Sound := by
  cases e with
  | openFiles =>
    simp only [Host.step]
    split
    · exact sound
    · exact sound.openFiles
  | flush batch =>
    simp only [Host.step]
    cases done : h.flush batch with
    | none => exact sound.ends
    | some h' => exact sound.flush small done
  | crashInValue batch n =>
    simp only [Host.step]
    cases done : h.crashInValue batch n with
    | none => exact sound.ends
    | some h' => exact sound.crashInValue done
  | crashInIndex batch n =>
    simp only [Host.step]
    cases done : h.crashInIndex batch n with
    | none => exact sound.ends
    | some h' => exact sound.crashInIndex small done

theorem sound_empty : Sound {} where
  room := by decide
  placed := by simp
  index := ⟨[], by simp, 0, rfl⟩
  running _ up := by cases up

/-- Every record that can be read from the index file denotes the value it was written with. -/
theorem Sound.records (sound : h.Sound) : ∀ ie ∈ (readIndex h.index).1, (∃ v, (ie, v) ∈ h.written) ∧
    ∀ v, (ie, v) ∈ h.written → Placed h.values ie v := by
  obtain ⟨entries, known, m, cut⟩ := sound.index
  have fits : ∀ ie ∈ entries, Fits ie := fun ie inside =>
    let ⟨_, there⟩ := known ie inside
    (sound.placed _ there).2
  intro ie inside
  rw [cut, (readIndex_take fits m).1] at inside
  exact ⟨known ie ((complete_isPrefix entries m).subset inside), fun v there => (sound.placed _ there).1⟩

end Host

/-- Over every run of flushes, crashes and reopenings. -/
theorem records_denote_values (events : List HostEvent) (small : ∀ e ∈ events, Small e.batch) (n : Nat) :
    (∀ ie ∈ (readIndex (Runs.exec Host.step {} (events.take n)).index).1,
      (∃ v, (ie, v) ∈ (Runs.exec Host.step {} (events.take n)).written) ∧
        ∀ v, (ie, v) ∈ (Runs.exec Host.step {} (events.take n)).written →
          Placed (Runs.exec Host.step {} (events.take n)).values ie v) ∧
      ∀ r, (Runs.exec Host.step {} (events.take n)).running = some r →
        r.shard.valueOffset = (Runs.exec Host.step {} (events.take n)).values.length := by
  have along : Runs.Along Host.step (fun _ e => Small e.batch) {} events :=
    Runs.along_of_forall _ small
  have sound := Runs.invariant_take Host.step Host.Sound (fun _ _ sound ok => sound.step ok) Host.sound_empty
    along n
  exact ⟨sound.records, fun r up => (sound.running r up).2.1⟩

/-- The second record is torn: the first opening truncates it away and fails, the next one finds the
orphaned value and appends behind it. -/
def tornThenOpened : List HostEvent :=
  [.openFiles, .flush [⟨[97], [1, 2], true⟩], .crashInIndex [⟨[98], [3], true⟩] 5, .openFiles, .openFiles,
    .flush [⟨[99], [4], true⟩]]

theorem tornThenOpened_records :
    (readIndex (Runs.exec Host.step {} (tornThenOpened.take 6)).index).1 =
        [⟨[97], 2, 0⟩, ⟨[99], 1, 3⟩] ∧
      ∀ ie ∈ (readIndex (Runs.exec Host.step {} (tornThenOpened.take 6)).index).1,
        (∃ v, (ie, v) ∈ (Runs.exec Host.step {} (tornThenOpened.take 6)).written) ∧
          ∀ v, (ie, v) ∈ (Runs.exec Host.step {} (tornThenOpened.take 6)).written →
            Placed (Runs.exec Host.step {} (tornThenOpened.take 6)).values ie v :=
  ⟨by decide +kernel, (records_denote_values tornThenOpened (by decide +kernel) 6).1⟩

end Engine

end Kvgo

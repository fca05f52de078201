import Kvgo.Lib.Runs
import Kvgo.Engine.IndexBytes

/-! What a reopened shard answers. A value is loaded when it is first asked for, through
the one position of the value file; the value at offset zero is read wherever the
position stands. -/

namespace Kvgo

namespace Engine

def latestOf (before : Bytes → Option Bytes) (writes : List WriteRequest) : Bytes → Option Bytes :=
  writes.foldl (fun f r => Function.update f r.key (some r.value)) before

structure Denotes (valueFile : Bytes) (ie : IndexEntry) (value : Bytes) : Prop where
  size : ie.valueSize = value.length
  low : ie.valueOffset < 2 ^ 63
  slice : (valueFile.drop ie.valueOffset).take value.length = value

def Holds (index : List IndexEntry) (valueFile : Bytes) (latest : Bytes → Option Bytes) : Prop :=
  ∀ key, match latest key with
    | none => Shard.lookup index key = none
    | some value => ∃ ie, Shard.lookup index key = some ie ∧ Denotes valueFile ie value

theorem Denotes.grow {file : Bytes} {ie : IndexEntry} {value : Bytes} (denotes : Denotes file ie value)
    (more : Bytes) : Denotes (file ++ more) ie value := by
  refine ⟨denotes.size, denotes.low, ?_⟩
  have long := congrArg List.length denotes.slice
  simp only [List.length_take, List.length_drop] at long
  rcases Nat.eq_zero_or_pos value.length with empty | positive
  · simp [List.length_eq_zero_iff.mp empty]
  · rw [List.drop_append_of_le_length (by omega),
      List.take_append_of_le_length (by rw [List.length_drop]; omega)]
    exact denotes.slice

theorem Holds.grow {index : List IndexEntry} {file : Bytes} {latest : Bytes → Option Bytes}
    (holds : Holds index file latest) (more : Bytes) : Holds index (file ++ more) latest := by
  intro key
  have here := holds key
  cases found : latest key with
  | none => simpa [found] using here
  | some value =>
    simp only [found] at here
    obtain ⟨ie, last, denotes⟩ := here
    exact ⟨ie, last, denotes.grow more⟩

/-- One more record. -/
theorem Holds.snoc {index : List IndexEntry} {file : Bytes} {latest : Bytes → Option Bytes}
    (holds : Holds index file latest) {r : WriteRequest} (small : r.value.length < 2 ^ 32)
    (room : file.length < 2 ^ 63) :
    Holds (index ++ [encodeEntry r.key r.value.length file.length]) (file ++ r.value)
      (Function.update latest r.key (some r.value)) := by
  intro key
  rw [Shard.lookup_append]
  by_cases same : r.key = key
  · subst same
    simp only [Function.update_self, encodeEntry, if_true]
    refine ⟨_, rfl, ⟨Nat.mod_eq_of_lt small, ?_, ?_⟩⟩
    · show file.length % 2 ^ 64 < 2 ^ 63
      omega
    · show ((file ++ r.value).drop (file.length % 2 ^ 64)).take r.value.length = r.value
      rw [Nat.mod_eq_of_lt (by omega), List.drop_left, List.take_length]
  · have here := holds.grow r.value key
    rw [Function.update_of_ne (Ne.symm same)]
    simpa [encodeEntry, same] using here

theorem Holds.batch {index : List IndexEntry} {file : Bytes} {latest : Bytes → Option Bytes}
    (holds : Holds index file latest) {batch : List WriteRequest}
    (small : ∀ r ∈ batch, r.value.length < 2 ^ 32)
    (room : file.length + (batch.map WriteRequest.value).flatten.length < 2 ^ 63) :
    Holds (index ++ Shard.encodeBatch file.length batch)
      (file ++ (batch.map WriteRequest.value).flatten) (latestOf latest batch) := by
  induction batch generalizing index file latest with
  | nil => simpa [Shard.encodeBatch, latestOf] using holds
  | cons r rest ih =>
    simp only [List.map_cons, List.flatten_cons, List.length_append] at room
    have first := holds.snoc (small r (by simp)) (by omega)
    have later := ih first (fun q inside => small q (by simp [inside]))
      (by rw [List.length_append]; omega)
    rw [List.length_append] at later
    simpa [Shard.encodeBatch, latestOf, List.append_assoc] using later

/-! The files that flushes leave. -/

def flushAll (s : Shard) (batches : List (List WriteRequest)) : Option Shard :=
  batches.foldlM Shard.flush s

namespace Shard

theorem applySync_files (s : Shard) (batch : List WriteRequest) :
    (s.applySync batch).indexFile = s.indexFile ∧ (s.applySync batch).valueFile = s.valueFile ∧
      (s.applySync batch).position = s.position ∧ (s.applySync batch).valueOffset = s.valueOffset ∧
      (s.applySync batch).pending = s.pending := by
  unfold applySync
  induction batch generalizing s with
  | nil => exact ⟨rfl, rfl, rfl, rfl, rfl⟩
  | cons r rest ih =>
    rw [List.foldl_cons]
    split
    · exact ih _
    · exact ih _

theorem applySync_memory {s s' : Shard} (data : s.data = s'.data) (keys : s.keys = s'.keys)
    (batch : List WriteRequest) : (s.applySync batch).data = (s'.applySync batch).data ∧
      (s.applySync batch).keys = (s'.applySync batch).keys := by
  unfold applySync
  induction batch generalizing s s' with
  | nil => exact ⟨data, keys⟩
  | cons r rest ih =>
    rw [List.foldl_cons, List.foldl_cons]
    split
    · exact ih (by simp [putInternal, setEntry, data]) (by simp [putInternal, setEntry, data, keys])
    · exact ih data keys

structure Flushed (s : Shard) (batch : List WriteRequest) (s' : Shard) : Prop where
  room : s.valueFile.length + (batch.map WriteRequest.value).flatten.length < 2 ^ 63
  index : s'.indexFile = s.indexFile ++ encodeBatch s.valueOffset batch
  values : s'.valueFile = s.valueFile ++ (batch.map WriteRequest.value).flatten
  offset : s'.valueOffset = s.valueOffset + (batch.map WriteRequest.value).flatten.length
  pending : s'.pending = s.pending
  memory : s'.data = (s.applySync batch).data ∧ s'.keys = (s.applySync batch).keys

theorem flush_eq_some {s s' : Shard} {batch : List WriteRequest} (done : s.flush batch = some s') :
    Flushed s batch s' := by
  simp only [flush, writeValue, Option.bind_eq_bind, Option.bind_eq_some_iff, Option.some.injEq] at done
  obtain ⟨mid, wrote, rfl⟩ := done
  split at wrote
  · cases wrote
  rename_i room
  cases wrote
  obtain ⟨index, values, _, offset, pending⟩ := applySync_files _ batch
  exact ⟨by omega, index, values, offset, pending, applySync_memory (by rfl) (by rfl) batch⟩

end Shard

/-- The files written by flushes of small values, with the latest value of each key. -/
structure Written (s : Shard) (latest : Bytes → Option Bytes) : Prop where
  offset : s.valueOffset = s.valueFile.length
  holds : Holds s.indexFile s.valueFile latest

theorem Written.flush {s s' : Shard} {latest : Bytes → Option Bytes} (written : Written s latest)
    {batch : List WriteRequest} (small : ∀ r ∈ batch, r.value.length < 2 ^ 32)
    (done : s.flush batch = some s') : Written s' (latestOf latest batch) := by
  have flushed := Shard.flush_eq_some done
  refine ⟨by rw [flushed.offset, flushed.values, written.offset, List.length_append], ?_⟩
  rw [flushed.index, flushed.values, written.offset]
  exact written.holds.batch small flushed.room

theorem Written.flushAll {s s' : Shard} {latest : Bytes → Option Bytes} (written : Written s latest)
    {batches : List (List WriteRequest)} (small : ∀ r ∈ batches.flatten, r.value.length < 2 ^ 32)
    (done : Engine.flushAll s batches = some s') : Written s' (latestOf latest batches.flatten) := by
  induction batches generalizing s latest with
  | nil => cases done; exact written
  | cons batch rest ih =>
    simp only [Engine.flushAll, List.foldlM_cons, Option.bind_eq_bind, Option.bind_eq_some_iff] at done
    obtain ⟨mid, first, later⟩ := done
    rw [List.flatten_cons] at small ⊢
    have next := ih (written.flush (fun r inside => small r (by simp [inside])) first)
      (fun r inside => small r (List.mem_append_right _ inside)) later
    simpa [latestOf] using next

/-- What holds of the records of every batch holds of the index file. -/
theorem flushAll_records {P : IndexEntry → Prop} {batches : List (List WriteRequest)} {s s' : Shard}
    (old : ∀ ie ∈ s.indexFile, P ie)
    (new : ∀ offset, ∀ batch ∈ batches, ∀ ie ∈ Shard.encodeBatch offset batch, P ie)
    (flushed : flushAll s batches = some s') : ∀ ie ∈ s'.indexFile, P ie := by
  induction batches generalizing s with
  | nil =>
    cases flushed
    exact old
  | cons batch rest ih =>
    simp only [flushAll, List.foldlM_cons, Option.bind_eq_bind, Option.bind_eq_some_iff] at flushed
    obtain ⟨mid, first, later⟩ := flushed
    refine ih (fun ie inside => ?_) (fun offset b more => new offset b (List.mem_cons_of_mem _ more)) later
    rw [(Shard.flush_eq_some first).index] at inside
    rcases List.mem_append.mp inside with before | added
    · exact old ie before
    · exact new _ batch (by simp) ie added

theorem flushAll_opens {batches : List (List WriteRequest)} {s : Shard} (flushed : flushAll {} batches = some s)
    (narrow : ∀ r ∈ batches.flatten, r.key.length < 2 ^ 32) :
    openShard (indexBytes s.indexFile) s.valueFile =
      (some (Shard.reopen s.indexFile s.valueFile), indexBytes s.indexFile) := by
  refine openShard_indexBytes (flushAll_records (s := {}) (by simp) (fun offset batch inside => ?_) flushed) _
  exact encodeBatch_fits (fun r waits => narrow r (List.mem_flatten_of_mem inside waits))

/-! The run after the shard was reopened. -/

inductive ShardEvent where
  | get (key : Bytes)
  | put (key value : Bytes)
  | putAsync (key value : Bytes)
  /-- The committer flushes the oldest `n` requests. -/
  | flush (n : Nat)

/-- A shard, the latest applied value of each key, and for each answer of `get` the
value that was asked for. -/
structure Trace where
  shard : Shard
  latest : Bytes → Option Bytes
  answers : List (Except ReadError (Option Bytes) × Option Bytes) := []

def Trace.step (t : Trace) : ShardEvent → Trace
  | .get key =>
    let (answer, shard) := t.shard.get key
    { t with shard, answers := t.answers ++ [(answer, t.latest key)] }
  | .put key value => { t with shard := t.shard.put key value }
  | .putAsync key value =>
    { t with
      shard := t.shard.putAsync key value
      latest := Function.update t.latest key (some value) }
  | .flush n =>
    match t.shard.flushPending n with
    | none => t
    | some shard =>
      { t with
        shard
        latest := latestOf t.latest ((t.shard.pending.take n).filter WriteRequest.sync) }

def Trace.Seeks (t : Trace) : ShardEvent → Prop
  | .get key => ∀ ve ∈ t.shard.data key,
      ve.payload = none ∧ 0 < ve.size ∧ ve.offset = 0 → t.shard.position = 0
  | _ => True

instance (t : Trace) (e : ShardEvent) : Decidable (t.Seeks e) := by
  cases e <;> unfold Trace.Seeks <;> infer_instance

def Backed (s : Shard) (latest : Bytes → Option Bytes) : Prop :=
  ∀ key, match s.data key with
    | none => latest key = none
    | some ve => ∃ value, latest key = some value ∧ (ve.payload = some value ∨
        ve.payload = none ∧ Denotes s.valueFile ⟨key, ve.size, ve.offset⟩ value)

structure Trace.Good (t : Trace) : Prop where
  backed : Backed t.shard t.latest
  answered : ∀ a ∈ t.answers, a.1 = .ok a.2

theorem Backed.set {s : Shard} {latest : Bytes → Option Bytes} (backed : Backed s latest) (key value : Bytes)
    {ve : ValueEntry} (holds : ve.payload = some value) :
    Backed (s.setEntry key ve) (Function.update latest key (some value)) := by
  intro other
  rw [Shard.setEntry_data]
  by_cases same : other = key
  · subst same
    simp only [if_true, Function.update_self]
    exact ⟨value, rfl, .inl holds⟩
  · rw [if_neg same, Function.update_of_ne same]
    exact backed other

theorem Backed.applySync {s : Shard} {latest : Bytes → Option Bytes} (backed : Backed s latest)
    (batch : List WriteRequest) :
    Backed (s.applySync batch) (latestOf latest (batch.filter WriteRequest.sync)) := by
  induction batch generalizing s latest with
  | nil => exact backed
  | cons r rest ih =>
    simp only [Shard.applySync, List.foldl_cons, List.filter_cons]
    split
    · exact ih (backed.set r.key r.value rfl)
    · exact ih backed

def Shard.Finds (s : Shard) (key : Bytes) : Prop :=
  ∀ ve ∈ s.data key, ve.payload = none ∧ 0 < ve.size ∧ ve.offset = 0 →
    (s.valueFile.drop s.position).take ve.size = s.valueFile.take ve.size

instance (s : Shard) (key : Bytes) : Decidable (s.Finds key) :=
  inferInstanceAs (Decidable (∀ ve ∈ s.data key, _))

theorem Shard.finds_of_seeks {s : Shard} {key : Bytes}
    (seeks : ∀ ve ∈ s.data key, ve.payload = none ∧ 0 < ve.size ∧ ve.offset = 0 → s.position = 0) :
    s.Finds key := by
  intro ve found unloaded
  rw [seeks ve found unloaded, List.drop_zero]

theorem Shard.setEntry_self {s : Shard} {key : Bytes} {ve : ValueEntry} (found : s.data key = some ve) :
    s.setEntry key ve = s := by
  unfold Shard.setEntry
  rw [Function.update_eq_self_iff.mpr found.symm, found, Option.isSome_some, if_pos rfl]

theorem Shard.readValue_at {s : Shard} {offset size : Nat} {value : Bytes} (low : offset < 2 ^ 63)
    (size_eq : size = value.length) (positive : 0 < size)
    (slice : (s.valueFile.drop (if 0 < offset then offset else s.position)).take size = value) :
    ∃ position, s.readValue offset size = (.ok value, { s with position }) := by
  unfold Shard.readValue
  generalize (if 0 < offset then offset else s.position) = place at slice
  have long := congrArg List.length slice
  rw [List.length_take] at long
  have some : s.valueFile.drop place ≠ [] := List.ne_nil_of_length_pos (by omega)
  refine ⟨place + size, ?_⟩
  rw [if_neg (by omega)]
  dsimp only
  rw [if_neg some, if_neg (by omega), slice]

/-- A `get` that finds its bytes answers with them and keeps them in memory. -/
theorem Backed.get_eq {s : Shard} {latest : Bytes → Option Bytes} (backed : Backed s latest)
    {key value : Bytes} (finds : s.Finds key) (last : latest key = some value) :
    ∃ ve position, s.data key = some ve ∧ s.get key = (.ok (some value),
      ({ s with position } : Shard).setEntry key { ve with payload := some value }) := by
  have here := backed key
  cases found : s.data key with
  | none =>
    simp only [found, last] at here
    cases here
  | some ve =>
    simp only [found, last, Option.some.injEq] at here
    obtain ⟨stored, rfl, held⟩ := here
    cases payload : ve.payload with
    | some kept =>
      rw [payload] at held
      obtain rfl : kept = value := by simpa using held
      refine ⟨ve, s.position, rfl, ?_⟩
      have same : ({ ve with payload := some kept } : ValueEntry) = ve := by rw [← payload]
      rw [same, Shard.setEntry_self found]
      simp only [Shard.get, found, Shard.getValue, payload]
    | none =>
      rw [payload] at held
      have denotes := (held.resolve_left (by simp)).2
      have size : ve.size = value.length := denotes.size
      by_cases empty : ve.size = 0
      · obtain rfl : value = [] := List.length_eq_zero_iff.mp (size ▸ empty)
        refine ⟨ve, s.position, rfl, ?_⟩
        simp only [Shard.get, found, Shard.getValue, payload, if_pos empty]
      · have slice : (s.valueFile.drop (if 0 < ve.offset then ve.offset else s.position)).take ve.size =
            value := by
          have stands : (s.valueFile.drop ve.offset).take value.length = value := denotes.slice
          split
          · rw [size, stands]
          · next zero =>
            have start : ve.offset = 0 := by omega
            rw [finds ve found ⟨payload, by omega, start⟩, size]
            rwa [start, List.drop_zero] at stands
        obtain ⟨position, read⟩ := Shard.readValue_at denotes.low size (by omega) slice
        refine ⟨ve, position, rfl, ?_⟩
        simp only [Shard.get, found, Shard.getValue, payload, if_neg empty, read]

theorem Backed.find {s : Shard} {latest : Bytes → Option Bytes} (backed : Backed s latest) {key : Bytes}
    (finds : s.Finds key) : (s.get key).1 = .ok (latest key) ∧ Backed (s.get key).2 latest := by
  cases last : latest key with
  | none =>
    have here := backed key
    cases found : s.data key with
    | none =>
      simp only [Shard.get, found]
      exact ⟨trivial, backed⟩
    | some ve =>
      simp only [found, last, reduceCtorEq, false_and, exists_false] at here
  | some value =>
    obtain ⟨ve, position, _, read⟩ := backed.get_eq finds last
    rw [read]
    refine ⟨rfl, ?_⟩
    have moved : Backed { s with position } latest := backed
    have kept : Backed (({ s with position } : Shard).setEntry key { ve with payload := some value })
        (Function.update latest key (some value)) := moved.set key value rfl
    rwa [Function.update_eq_self_iff.mpr last.symm] at kept

theorem Backed.get {s : Shard} {latest : Bytes → Option Bytes} (backed : Backed s latest) {key : Bytes}
    (seeks : ∀ ve ∈ s.data key, ve.payload = none ∧ 0 < ve.size ∧ ve.offset = 0 → s.position = 0) :
    (s.get key).1 = .ok (latest key) ∧ Backed (s.get key).2 latest :=
  backed.find (Shard.finds_of_seeks seeks)

/-- Where nothing is loaded and the position is zero, every key is answered with the bytes it points to. -/
theorem Shard.get_unloaded {s : Shard} (start : s.position = 0)
    (unloaded : ∀ key, ∀ ve ∈ s.data key, ve.payload = none)
    (inside : ∀ key, ∀ ve ∈ s.data key, ve.offset + ve.size ≤ s.valueFile.length)
    (room : s.valueFile.length < 2 ^ 63) (key : Bytes) :
    (s.get key).1 = .ok ((s.data key).map (fun ve => (s.valueFile.drop ve.offset).take ve.size)) := by
  have backed : Backed s (fun key => (s.data key).map (fun ve => (s.valueFile.drop ve.offset).take ve.size)) := by
    intro key
    cases found : s.data key with
    | none => simp [found]
    | some ve =>
      have bound := inside key ve found
      have size : ((s.valueFile.drop ve.offset).take ve.size).length = ve.size := by
        rw [List.length_take, List.length_drop]
        omega
      have low : ve.offset < 2 ^ 63 := by omega
      simp only [found, Option.map_some]
      exact ⟨_, rfl, .inr ⟨unloaded key ve found, size.symm, low, by rw [size]⟩⟩
  exact (backed.get (fun _ _ _ => start)).1

/-- A flush appends to the value file and applies its waiting writes. -/
theorem Backed.flush {s s' : Shard} {latest : Bytes → Option Bytes} (backed : Backed s latest)
    {batch : List WriteRequest} (done : s.flush batch = some s') :
    Backed s' (latestOf latest (batch.filter WriteRequest.sync)) := by
  have flushed := Shard.flush_eq_some done
  have grown : Backed { s with valueFile := s'.valueFile } latest := by
    intro key
    have here := backed key
    cases found : s.data key with
    | none => simpa [found] using here
    | some ve =>
      simp only [found] at here ⊢
      obtain ⟨value, last, held⟩ := here
      refine ⟨value, last, held.imp_right (fun ⟨lazy, denotes⟩ => ⟨lazy, ?_⟩)⟩
      rw [flushed.values]
      exact denotes.grow _
  intro key
  have here := grown.applySync batch key
  rw [(Shard.applySync_files _ _).2.1] at here
  have same : s'.data = (({ s with valueFile := s'.valueFile } : Shard).applySync batch).data :=
    flushed.memory.1.trans (Shard.applySync_memory (by rfl) (by rfl) _).1
  rw [same]
  exact here

theorem Trace.Good.step {t : Trace} (good : t.Good) {e : ShardEvent} (seeks : t.Seeks e) :
    (t.step e).Good := by
  cases e with
  | get key =>
    obtain ⟨answer, backed⟩ := good.backed.get seeks
    refine ⟨backed, fun a inside => ?_⟩
    rcases List.mem_append.mp inside with old | new
    · exact good.answered a old
    · rw [List.mem_singleton.mp new]; exact answer
  | put key value => exact ⟨good.backed, good.answered⟩
  | putAsync key value => exact ⟨good.backed.set key value rfl, good.answered⟩
  | flush n =>
    simp only [Trace.step]
    split
    · exact good
    · rename_i shard done
      have waiting : Backed { t.shard with pending := t.shard.pending.drop n } t.latest := good.backed
      exact ⟨waiting.flush done, good.answered⟩

/-- A shard that replays its files is backed by them. -/
theorem Written.reopen_backed {s : Shard} {latest : Bytes → Option Bytes} (written : Written s latest) :
    Backed (Shard.reopen s.indexFile s.valueFile) latest := by
  intro key
  have replayed := Shard.reopen_replayed s.indexFile s.valueFile
  have here := written.holds key
  rw [replayed.data key, replayed.values]
  cases last : latest key with
  | none =>
    simp only [last] at here
    simp [here]
  | some value =>
    simp only [last] at here
    obtain ⟨ie, found, denotes⟩ := here
    simp only [found, Option.map_some]
    exact ⟨value, rfl, .inr ⟨trivial, denotes.size, denotes.low, denotes.slice⟩⟩

def Trace.start (s : Shard) (writes : List WriteRequest) : Trace where
  shard := s
  latest := latestOf (fun _ => none) writes

/-- The files of flushed writes open, and from then on every `get` answers with the latest value, as long as no
value is loaded from offset zero while the position of the value file is elsewhere. -/
theorem reopened_reads_latest (batches : List (List WriteRequest)) (s : Shard)
    (flushed : flushAll {} batches = some s)
    (small : ∀ r ∈ batches.flatten, r.key.length < 2 ^ 32 ∧ r.value.length < 2 ^ 32) :
    ∃ reopened, openShard (indexBytes s.indexFile) s.valueFile = (some reopened, indexBytes s.indexFile) ∧
      ∀ events, Runs.Along Trace.step Trace.Seeks (Trace.start reopened batches.flatten) events →
        ∀ a ∈ (Runs.exec Trace.step (Trace.start reopened batches.flatten) events).answers, a.1 = .ok a.2 := by
  refine ⟨_, flushAll_opens flushed (fun r inside => (small r inside).1), fun events seeks => ?_⟩
  have empty : Written {} (fun _ => none) := ⟨rfl, fun _ => rfl⟩
  have written := empty.flushAll (fun r inside => (small r inside).2) flushed
  have start : (Trace.start (Shard.reopen s.indexFile s.valueFile) batches.flatten).Good :=
    ⟨written.reopen_backed, by simp [Trace.start]⟩
  exact (Runs.invariant _ Trace.Good (fun t e good ok => good.step ok) start seeks).answered

def twoKeys : List (List WriteRequest) := [[⟨[97], [1, 2], true⟩, ⟨[98], [3], true⟩]]

theorem twoKeys_read_in_order : ∃ s reopened, flushAll {} twoKeys = some s ∧
    openShard (indexBytes s.indexFile) s.valueFile = (some reopened, indexBytes s.indexFile) ∧
    (Runs.exec Trace.step (Trace.start reopened twoKeys.flatten) [.get [97], .get [98]]).answers.map Prod.snd =
      [some [1, 2], some [3]] ∧
    ∀ a ∈ (Runs.exec Trace.step (Trace.start reopened twoKeys.flatten) [.get [97], .get [98]]).answers,
      a.1 = .ok a.2 := by
  obtain ⟨s, flushed⟩ : ∃ s, flushAll {} twoKeys = some s := ⟨_, rfl⟩
  obtain ⟨reopened, opens, answers⟩ := reopened_reads_latest twoKeys s flushed (by decide)
  cases flushed
  cases opens
  exact ⟨_, _, rfl, rfl, by decide +kernel, answers [.get [97], .get [98]] (by decide +kernel)⟩

/-- The key at offset zero is asked for second: its read finds the end of the file. -/
theorem twoKeys_read_in_reverse : ∃ s reopened, flushAll {} twoKeys = some s ∧
    openShard (indexBytes s.indexFile) s.valueFile = (some reopened, indexBytes s.indexFile) ∧
    (Runs.exec Trace.step (Trace.start reopened twoKeys.flatten) [.get [98], .get [97]]).answers =
      [(.ok (some [3]), some [3]), (.error .eof, some [1, 2])] :=
  ⟨_, _, rfl, rfl, by decide +kernel⟩

end Engine

end Kvgo

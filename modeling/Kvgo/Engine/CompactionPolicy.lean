import Kvgo.Engine.CleanupData
import Kvgo.Engine.Committer

/-! When the index of a shard is compacted (`compaction.go`). A shard counts its keys, their bytes and the
bytes of its index file; the compaction worker looks at these gauges on every tick and compares the file with
what a compaction would leave of it. -/

namespace Kvgo

namespace Engine

/-- Durations in nanoseconds. The threshold and the quotient compared with it are floats in the source; below
2 ^ 50 bytes the rounded quotient lies on the same side of the default threshold. -/
structure CompactionPolicy where
  checkEvery : Nat
  minInterval : Nat
  maxInterval : Nat
  ampThreshold : ℚ

def minute : Nat := 60 * 10 ^ 9

def defaultCompactionPolicy : CompactionPolicy where
  checkEvery := minute
  minInterval := 10 * minute
  maxInterval := 24 * 60 * minute
  ampThreshold := 4

def isReasonable (p : CompactionPolicy) : Prop :=
  minute ≤ p.checkEvery ∧ minute ≤ p.minInterval ∧ minute ≤ p.maxInterval ∧ 1 < p.ampThreshold ∧
    p.checkEvery ≤ p.minInterval ∧ p.minInterval ≤ p.maxInterval

instance (p : CompactionPolicy) : Decidable (isReasonable p) := by
  unfold isReasonable; infer_instance

structure CompactWorker where
  /-- `none` is the zero time. -/
  lastCompacted : Option Nat := none
  policy : CompactionPolicy
  reasonable : isReasonable policy

/-- `none` is `ErrInvalidCompactionPolicy`. -/
def newCompactionWorker (policy : CompactionPolicy) : Option CompactWorker :=
  if reasonable : isReasonable policy then some { policy, reasonable } else none

structure Gauged where
  shard : Shard := {}
  keyBytesInRAM : Nat := 0
  numKeys : Nat := 0
  indexBytesOnDisk : Nat := 0
  worker : CompactWorker

/-- The step of `doCompact` that fails; an index file is opened again after a failed replacement too, and
`Stat` may fail there. -/
inductive CompactFault where
  | writeSnapshot
  | replace (stat : Bool)
  | stat
  deriving DecidableEq, Repr

inductive GaugeEvent where
  | put (key value : Bytes)
  | putAsync (key value : Bytes)
  | flush (n : Nat)
  | get (key : Bytes)
  | clean (order : List Bytes)
  | clear
  /-- The process ends and the shard is opened again. -/
  | reopen
  /-- A tick of the worker; `order` is the order in which `snapshot` would walk the map. -/
  | tick (now : Nat) (order : List Bytes) (fault : Option CompactFault)

namespace Gauged

def putInternal (g : Gauged) (key value : Bytes) : Gauged :=
  { g with
    shard := g.shard.putInternal key value
    keyBytesInRAM := if (g.shard.data key).isSome then g.keyBytesInRAM else g.keyBytesInRAM + key.length
    numKeys := if (g.shard.data key).isSome then g.numKeys else g.numKeys + 1 }

def enqueue (g : Gauged) (r : WriteRequest) : Gauged :=
  { g with shard := { g.shard with pending := g.shard.pending ++ [r] } }

def applySync (g : Gauged) (batch : List WriteRequest) : Gauged :=
  batch.foldl (fun g r => if r.sync then g.putInternal r.key r.value else g) g

def idxTotal (batch : List WriteRequest) : Nat := (batch.map fun r => walIndexLen r.key.length).sum

/-- `flush` of the requests that wait longest; `none` is the panic after a failed write. -/
def flushPending (g : Gauged) (n : Nat) : Option Gauged := do
  let batch := g.shard.pending.take n
  let shard ← { g.shard with pending := g.shard.pending.drop n }.writeBatch batch
  some ({ g with shard, indexBytesOnDisk := g.indexBytesOnDisk + idxTotal batch }.applySync batch)

def flushBatches : Nat → Gauged → Option Gauged
  | 0, g => some g
  | n + 1, g => do flushBatches n (← g.flushPending syncBatchSize)

/-- The barrier before the work of a compaction or a cleanup: everything that waits is flushed, in batches of
the size of the buffer. -/
def drainReqCh (g : Gauged) : Option Gauged :=
  g.flushBatches ((g.shard.pending.length + syncBatchSize - 1) / syncBatchSize)

/-- `newShard` and `replay`: nothing sets the bytes of the index file. -/
def reopen (g : Gauged) : Gauged :=
  let shard := Shard.reopen g.shard.indexFile g.shard.valueFile
  { shard
    keyBytesInRAM := (shard.keys.map List.length).sum
    numKeys := shard.keys.length
    worker := { g.worker with lastCompacted := none } }

def clear (g : Gauged) : Gauged :=
  { g with
    shard := { pending := g.shard.pending }
    keyBytesInRAM := 0
    numKeys := 0
    indexBytesOnDisk := 0 }

def clean (g : Gauged) (order : List Bytes) : Gauged :=
  match writeCleanupData Cleaning.never g.shard [] [] order with
  | (.error _, c) => { g with shard := c.shard }
  | (.ok (), c) =>
    { g with shard := c.shard.updateAfterCleanup c.tempIndex c.tempValue c.newOffsets c.newValueOffset }

def reopenIndexFile (g : Gauged) (stat : Bool) : Gauged :=
  { g with indexBytesOnDisk := if stat then 0 else (indexBytes g.shard.indexFile).length }

/-- `doCompact`, and whether it returns nil. -/
def doCompact (g : Gauged) (order : List Bytes) (fault : Option CompactFault) : Bool × Gauged :=
  let indices := g.shard.snapshot order
  let replaced := { g with shard := { g.shard with indexFile := indices } }
  if indices = [] then (true, g)
  else
    match fault with
    | some .writeSnapshot => (false, g)
    | some (.replace stat) => (false, g.reopenIndexFile stat)
    | some .stat => (true, replaced.reopenIndexFile true)
    | none => (true, replaced.reopenIndexFile false)

def maxDue (g : Gauged) (now : Nat) : Bool :=
  g.worker.lastCompacted.any fun last => decide (g.worker.policy.maxInterval ≤ now - last)

def shouldCompact (g : Gauged) (now : Nat) : Bool :=
  if g.worker.lastCompacted.any fun last => decide (now - last < g.worker.policy.minInterval) then false
  else if g.indexBytesOnDisk = 0 then false
  else if g.keyBytesInRAM = 0 ∨ g.numKeys = 0 then g.maxDue now
  else
    let expectedIndexBytes := g.keyBytesInRAM + g.numKeys * walIndexHeaderBytes
    let amp : ℚ := g.indexBytesOnDisk / expectedIndexBytes
    g.maxDue now || decide (g.worker.policy.ampThreshold ≤ amp)

/-- A turn of `startCompactionWorker`. -/
def tick (g : Gauged) (now : Nat) (order : List Bytes) (fault : Option CompactFault) : Gauged :=
  if g.shouldCompact now then
    match g.drainReqCh with
    | none => g
    | some drained =>
      match drained.doCompact order fault with
      | (true, g') => { g' with worker := { g'.worker with lastCompacted := some now } }
      | (false, g') => g'
  else g

def step (g : Gauged) : GaugeEvent → Gauged
  | .put key value => g.enqueue ⟨key, value, true⟩
  | .putAsync key value => (g.putInternal key value).enqueue ⟨key, value, false⟩
  | .flush n => (g.flushPending n).getD g
  | .get key => { g with shard := g.shard.load key }
  | .clean order => (g.drainReqCh.map fun drained => drained.clean order).getD g
  | .clear => g.clear
  | .reopen => g.reopen
  | .tick now order fault => g.tick now order fault

end Gauged

namespace GaugeEvent

def isClean : GaugeEvent → Bool
  | .clean _ => true
  | _ => false

def forgets : GaugeEvent → Bool
  | .reopen | .tick _ _ (some (.replace true)) | .tick _ _ (some .stat) => true
  | _ => false

end GaugeEvent

/-! ### The keys -/

structure Gauged.Kept (g : Gauged) : Prop where
  keys : ∀ key, key ∈ g.shard.keys ↔ (g.shard.data key).isSome
  nodup : g.shard.keys.Nodup
  count : g.numKeys = g.shard.keys.length
  bytes : g.keyBytesInRAM = (g.shard.keys.map List.length).sum

structure SameKeys (s s' : Shard) : Prop where
  keys : s'.keys = s.keys
  data : ∀ key, (s'.data key).isSome = (s.data key).isSome
  index : s'.indexFile = s.indexFile

theorem SameKeys.trans {s s' s'' : Shard} (first : SameKeys s s') (second : SameKeys s' s'') :
    SameKeys s s'' where
  keys := second.keys.trans first.keys
  data key := (second.data key).trans (first.data key)
  index := second.index.trans first.index

theorem sameKeys_setEntry {s : Shard} {key : Bytes} (there : (s.data key).isSome) (ve : ValueEntry) :
    SameKeys s (s.setEntry key ve) := by
  refine ⟨if_pos there, fun other => ?_, rfl⟩
  rw [Shard.setEntry_data]
  split
  · next same => rw [same, there]; rfl
  · rfl

theorem sameKeys_readValue (s : Shard) (offset size : Nat) : SameKeys s (s.readValue offset size).2 := by
  unfold Shard.readValue
  split
  · exact ⟨rfl, fun _ => rfl, rfl⟩
  dsimp only
  generalize (if 0 < offset then offset else s.position) = place
  split
  · exact ⟨rfl, fun _ => rfl, rfl⟩
  split <;> exact ⟨rfl, fun _ => rfl, rfl⟩

theorem sameKeys_load (s : Shard) (key : Bytes) : SameKeys s (s.load key) := by
  unfold Shard.load Shard.get
  cases found : s.data key with
  | none => exact ⟨rfl, fun _ => rfl, rfl⟩
  | some ve =>
    have there : (s.data key).isSome := by rw [found]; rfl
    dsimp only
    unfold Shard.getValue
    cases ve.payload with
    | some value => exact ⟨rfl, fun _ => rfl, rfl⟩
    | none =>
      dsimp only
      by_cases empty : ve.size = 0
      · rw [if_pos empty]
        exact sameKeys_setEntry there _
      rw [if_neg empty]
      have same := sameKeys_readValue s ve.offset ve.size
      generalize s.readValue ve.offset ve.size = result at same
      obtain ⟨answer, s'⟩ := result
      cases answer with
      | error e => exact same
      | ok value => exact same.trans (sameKeys_setEntry ((same.data key).trans there) _)

theorem sameKeys_loads (s : Shard) (order : List Bytes) : SameKeys s (Runs.exec Shard.load s order) := by
  induction order generalizing s with
  | nil => exact ⟨rfl, fun _ => rfl, rfl⟩
  | cons key rest ih => exact (sameKeys_load s key).trans (ih _)

namespace Gauged

variable {g : Gauged}

theorem Kept.same (kept : g.Kept) {g' : Gauged} (same : SameKeys g.shard g'.shard) (count : g'.numKeys = g.numKeys)
    (bytes : g'.keyBytesInRAM = g.keyBytesInRAM) : g'.Kept :=
  ⟨fun key => by rw [same.keys, same.data, kept.keys], by rw [same.keys]; exact kept.nodup,
    by rw [same.keys, count, kept.count], by rw [same.keys, bytes, kept.bytes]⟩

theorem Kept.putInternal (kept : g.Kept) (key value : Bytes) : (g.putInternal key value).Kept := by
  refine ⟨Shard.setEntry_keys kept.keys _ _, Shard.setEntry_nodup kept.keys kept.nodup _ _, ?_, ?_⟩
  · simp only [Gauged.putInternal, Shard.putInternal, Shard.setEntry]
    split
    · exact kept.count
    · rw [List.length_append, kept.count]
      rfl
  · simp only [Gauged.putInternal, Shard.putInternal, Shard.setEntry]
    split
    · exact kept.bytes
    · rw [List.map_append, List.sum_append, kept.bytes]
      rfl

theorem Kept.applySync (kept : g.Kept) (batch : List WriteRequest) : (g.applySync batch).Kept := by
  unfold Gauged.applySync
  refine List.foldlRecOn batch _ kept (fun g' kept r _ => ?_)
  split
  · exact kept.putInternal _ _
  · exact kept

theorem applySync_rest (g : Gauged) (batch : List WriteRequest) :
    (g.applySync batch).shard = g.shard.applySync batch ∧
      (g.applySync batch).indexBytesOnDisk = g.indexBytesOnDisk := by
  unfold Gauged.applySync Shard.applySync
  induction batch generalizing g with
  | nil => exact ⟨rfl, rfl⟩
  | cons r rest ih =>
    rw [List.foldl_cons, List.foldl_cons]
    split
    · exact ih (g.putInternal r.key r.value)
    · exact ih g

theorem writeBatch_eq_some {s s' : Shard} {batch : List WriteRequest} (done : s.writeBatch batch = some s') :
    s'.keys = s.keys ∧ s'.data = s.data ∧
      s'.indexFile = s.indexFile ++ Shard.encodeBatch s.valueOffset batch ∧ s'.pending = s.pending := by
  simp only [Shard.writeBatch, Shard.writeValue, Option.bind_eq_bind, Option.bind_eq_some_iff,
    Option.some.injEq] at done
  obtain ⟨mid, wrote, rfl⟩ := done
  split at wrote
  · cases wrote
  · cases wrote
    exact ⟨rfl, rfl, rfl, rfl⟩

theorem flushPending_eq_some {n : Nat} {g' : Gauged} (done : g.flushPending n = some g') :
    ∃ shard, { g.shard with pending := g.shard.pending.drop n }.writeBatch (g.shard.pending.take n) = some shard ∧
      g' = Gauged.applySync
        { g with shard, indexBytesOnDisk := g.indexBytesOnDisk + idxTotal (g.shard.pending.take n) }
        (g.shard.pending.take n) := by
  simp only [flushPending, Option.bind_eq_bind, Option.bind_eq_some_iff, Option.some.injEq] at done
  obtain ⟨shard, wrote, rfl⟩ := done
  exact ⟨shard, wrote, rfl⟩

def expectedIndexBytes (g : Gauged) : Nat := g.keyBytesInRAM + g.numKeys * walIndexHeaderBytes

def indexSize (g : Gauged) : Nat := (indexBytes g.shard.indexFile).length

structure Flushed (g : Gauged) (batch : List WriteRequest) (g' : Gauged) : Prop where
  kept : g.Kept → g'.Kept
  keys : ∀ key ∈ g.shard.keys, key ∈ g'.shard.keys
  worker : g'.worker = g.worker
  size : g'.indexSize = g.indexSize + idxTotal batch
  gauge : g'.indexBytesOnDisk = g.indexBytesOnDisk + idxTotal batch
  expected : g'.expectedIndexBytes ≤ g.expectedIndexBytes + idxTotal batch

theorem Flushed.trans {g' g'' : Gauged} {first second : List WriteRequest} (one : g.Flushed first g')
    (two : g'.Flushed second g'') : g.Flushed (first ++ second) g'' := by
  have total : idxTotal (first ++ second) = idxTotal first + idxTotal second := by
    rw [idxTotal, List.map_append, List.sum_append]
    rfl
  refine ⟨fun kept => two.kept (one.kept kept), fun key inside => two.keys key (one.keys key inside),
    two.worker.trans one.worker, ?_, ?_, ?_⟩
  · rw [two.size, one.size, total, Nat.add_assoc]
  · rw [two.gauge, one.gauge, total, Nat.add_assoc]
  · have := one.expected
    have := two.expected
    omega

/-- What applying a batch does to the map and its gauges. -/
theorem applySync_keys (g : Gauged) (batch : List WriteRequest) :
    (∀ key ∈ g.shard.keys, key ∈ (g.applySync batch).shard.keys) ∧ (g.applySync batch).worker = g.worker ∧
      (g.applySync batch).expectedIndexBytes ≤ g.expectedIndexBytes + idxTotal batch := by
  induction batch generalizing g with
  | nil => exact ⟨fun _ inside => inside, rfl, Nat.le_refl _⟩
  | cons r rest ih =>
    have total : idxTotal (r :: rest) = walIndexHeaderBytes + r.key.length + idxTotal rest := rfl
    by_cases sync : r.sync = true
    · obtain ⟨keys, worker, expected⟩ := ih (g.putInternal r.key r.value)
      have put : (g.putInternal r.key r.value).expectedIndexBytes ≤
          g.expectedIndexBytes + (walIndexHeaderBytes + r.key.length) := by
        simp only [expectedIndexBytes, Gauged.putInternal]
        split
        · omega
        · rw [Nat.add_mul]
          omega
      have same : g.applySync (r :: rest) = (g.putInternal r.key r.value).applySync rest := by
        rw [applySync, List.foldl_cons, if_pos sync]
        rfl
      refine ⟨fun key inside => ?_, ?_, ?_⟩
      · rw [same]
        refine keys key ?_
        simp only [Gauged.putInternal, Shard.putInternal, Shard.setEntry]
        split
        · exact inside
        · exact List.mem_append_left _ inside
      · rw [same, worker]
        rfl
      · rw [same]
        omega
    · have same : g.applySync (r :: rest) = g.applySync rest := by
        rw [applySync, List.foldl_cons, if_neg sync]
        rfl
      obtain ⟨keys, worker, expected⟩ := ih g
      rw [same]
      exact ⟨keys, worker, by omega⟩

theorem indexBytes_length (entries : List IndexEntry) :
    (indexBytes entries).length = (entries.map fun ie => walIndexLen ie.key.length).sum := by
  rw [indexBytes, List.length_flatten, List.map_map]
  exact congrArg List.sum (List.map_congr_left fun ie _ => entryBytes_length ie)

theorem encodeBatch_size (offset : Nat) (batch : List WriteRequest) :
    (indexBytes (Shard.encodeBatch offset batch)).length = idxTotal batch := by
  rw [indexBytes_length]
  induction batch generalizing offset with
  | nil => rfl
  | cons r rest ih => exact congrArg (walIndexLen r.key.length + ·) (ih _)

theorem flushed_flushPending {n : Nat} {g' : Gauged} (done : g.flushPending n = some g') :
    g.Flushed (g.shard.pending.take n) g' := by
  obtain ⟨shard, wrote, rfl⟩ := flushPending_eq_some done
  obtain ⟨keys, data, index, -⟩ := writeBatch_eq_some wrote
  obtain ⟨more, worker, expected⟩ := applySync_keys
    { g with shard, indexBytesOnDisk := g.indexBytesOnDisk + idxTotal (g.shard.pending.take n) }
    (g.shard.pending.take n)
  obtain ⟨applied, gauge⟩ := applySync_rest
    { g with shard, indexBytesOnDisk := g.indexBytesOnDisk + idxTotal (g.shard.pending.take n) }
    (g.shard.pending.take n)
  refine ⟨fun kept => Kept.applySync ⟨fun key => ?_, ?_, ?_, ?_⟩ _, fun key inside => more key ?_, worker, ?_,
    gauge, expected⟩
  · rw [keys, data]; exact kept.keys key
  · rw [keys]; exact kept.nodup
  · rw [keys]; exact kept.count
  · rw [keys]; exact kept.bytes
  · rw [keys]; exact inside
  · rw [indexSize, applied, (Shard.applySync_files _ _).1, index, indexBytes, List.map_append,
      List.flatten_append, List.length_append]
    exact congrArg (_ + ·) (encodeBatch_size _ _)

theorem flushPending_pending {n : Nat} {g' : Gauged} (done : g.flushPending n = some g') :
    g'.shard.pending = g.shard.pending.drop n := by
  obtain ⟨shard, wrote, rfl⟩ := flushPending_eq_some done
  obtain ⟨-, -, -, pending⟩ := writeBatch_eq_some wrote
  rw [(applySync_rest _ _).1, (Shard.applySync_files _ _).2.2.2.2, pending]

theorem flushBatches_flushed {g g' : Gauged} {n : Nat} (enough : g.shard.pending.length ≤ n * syncBatchSize)
    (done : g.flushBatches n = some g') : g.Flushed g.shard.pending g' := by
  induction n generalizing g with
  | zero =>
    cases done
    have none := List.length_eq_zero_iff.mp (Nat.le_zero.mp (enough.trans_eq (Nat.zero_mul _)))
    rw [none]
    exact ⟨id, fun _ inside => inside, rfl, rfl, rfl, Nat.le_refl _⟩
  | succ n ih =>
    simp only [flushBatches, Option.bind_eq_bind, Option.bind_eq_some_iff] at done
    obtain ⟨mid, first, rest⟩ := done
    have left := flushPending_pending first
    have later := ih (by rw [left, List.length_drop]; rw [Nat.add_mul] at enough; omega) rest
    rw [left] at later
    have both := (flushed_flushPending first).trans later
    rwa [List.take_append_drop] at both

theorem drained_flushed {drained : Gauged} (done : g.drainReqCh = some drained) :
    g.Flushed g.shard.pending drained := by
  refine flushBatches_flushed ?_ done
  simp only [syncBatchSize]
  omega

theorem Kept.clean (kept : g.Kept) (order : List Bytes) : (g.clean order).Kept := by
  have same : SameKeys g.shard (writeCleanupData Cleaning.never g.shard [] [] order).2.shard := by
    unfold writeCleanupData
    obtain ⟨n, loads⟩ := Cleaning.visitAll_shard order { shard := g.shard }
    rw [Cleaning.andThen_shard (Cleaning.finish_shard _), loads]
    exact sameKeys_loads _ _
  unfold Gauged.clean
  generalize writeCleanupData Cleaning.never g.shard [] [] order = result at same
  obtain ⟨_ | _, c⟩ := result
  · exact kept.same same rfl rfl
  · have read : Kept { g with shard := c.shard } := kept.same same rfl rfl
    refine ⟨fun key => ?_, read.nodup, read.count, read.bytes⟩
    show key ∈ c.shard.keys ↔ ((c.shard.data key).map _).isSome
    rw [Option.isSome_map]
    exact read.keys key

/-- What a compaction can do: nothing, or write the walked entries; the file is measured again unless that
fails. -/
theorem doCompact_cases (g : Gauged) (order : List Bytes) (fault : Option CompactFault) :
    (g.doCompact order fault).2 = g ∨
      ∃ indexFile stat, (g.doCompact order fault).2 =
        ({ g with shard := { g.shard with indexFile } } : Gauged).reopenIndexFile stat ∧
        (stat = true → fault = some (.replace true) ∨ fault = some .stat) := by
  unfold doCompact
  dsimp only
  split
  · exact .inl rfl
  · split
    · exact .inl rfl
    · next stat => exact .inr ⟨g.shard.indexFile, stat, rfl, fun failed => .inl (by rw [failed])⟩
    · exact .inr ⟨_, true, rfl, fun _ => .inr rfl⟩
    · exact .inr ⟨_, false, rfl, by rintro ⟨⟩⟩

/-- A turn of the worker ends as the compaction did, apart from the time it notes. -/
theorem tick_cases (g : Gauged) (now : Nat) (order : List Bytes) (fault : Option CompactFault) :
    g.tick now order fault = g ∨ ∃ drained lastCompacted, g.drainReqCh = some drained ∧
      g.tick now order fault =
        { (drained.doCompact order fault).2 with worker := { g.worker with lastCompacted } } := by
  unfold tick
  split
  · cases done : g.drainReqCh with
    | none => exact .inl rfl
    | some drained =>
      right
      have worker : (drained.doCompact order fault).2.worker = g.worker := by
        rw [← (drained_flushed done).worker]
        rcases doCompact_cases drained order fault with same | ⟨indexFile, stat, same, -⟩
        · rw [same]
        · rw [same]
          rfl
      refine ⟨drained, ?_⟩
      dsimp only
      generalize drained.doCompact order fault = result at worker
      obtain ⟨_ | _, g'⟩ := result
      · exact ⟨g'.worker.lastCompacted, rfl, by rw [← worker]⟩
      · exact ⟨some now, rfl, by rw [← worker]⟩
  · exact .inl rfl

theorem Kept.step (kept : g.Kept) (e : GaugeEvent) : (g.step e).Kept := by
  cases e with
  | put key value => exact ⟨kept.keys, kept.nodup, kept.count, kept.bytes⟩
  | putAsync key value =>
    have put := kept.putInternal key value
    exact ⟨put.keys, put.nodup, put.count, put.bytes⟩
  | flush n =>
    rw [Gauged.step]
    cases done : g.flushPending n with
    | none => exact kept
    | some g' => exact (flushed_flushPending done).kept kept
  | get key => exact kept.same (sameKeys_load _ _) rfl rfl
  | clean order =>
    rw [Gauged.step]
    cases done : g.drainReqCh with
    | none => exact kept
    | some drained => exact ((drained_flushed done).kept kept).clean order
  | clear => exact ⟨by simp [Gauged.step, Gauged.clear], .nil, rfl, rfl⟩
  | reopen =>
    have replayed := Shard.reopen_replayed g.shard.indexFile g.shard.valueFile
    exact ⟨replayed.keys, replayed.nodup, rfl, rfl⟩
  | tick now order fault =>
    rcases tick_cases g now order fault with same | ⟨drained, last, done, same⟩
    · rw [Gauged.step, same]
      exact kept
    · have kept := (drained_flushed done).kept kept
      rw [Gauged.step, same]
      rcases doCompact_cases drained order fault with still | ⟨indexFile, stat, measured, -⟩
      · rw [still]
        exact ⟨kept.keys, kept.nodup, kept.count, kept.bytes⟩
      · rw [measured]
        exact ⟨kept.keys, kept.nodup, kept.count, kept.bytes⟩

theorem kept_exec (kept : g.Kept) (events : List GaugeEvent) : (Runs.exec step g events).Kept :=
  List.foldlRecOn events step kept (fun _ kept e _ => kept.step e)

/-! ### The index file -/

/-- A compaction writes what the gauges of the map say. -/
theorem Kept.snapshot_size (kept : g.Kept) {order : List Bytes} (all : order.Perm g.shard.keys) :
    (indexBytes (g.shard.snapshot order)).length = g.expectedIndexBytes := by
  have walked : ∀ walk : List Bytes, (∀ key ∈ walk, (g.shard.data key).isSome) →
      (indexBytes (g.shard.snapshot walk)).length = (walk.map List.length).sum + walk.length * walIndexHeaderBytes := by
    intro walk there
    rw [indexBytes_length]
    induction walk with
    | nil => rfl
    | cons key rest ih =>
      obtain ⟨ve, found⟩ := Option.isSome_iff_exists.mp (there key (by simp))
      have later := ih (fun key inside => there key (by simp [inside]))
      rw [Shard.snapshot] at later ⊢
      rw [List.filterMap_cons_some (by rw [found]; rfl), List.map_cons, List.sum_cons, later]
      simp only [encodeEntry, walIndexLen, List.map_cons, List.sum_cons, List.length_cons]
      ring
  rw [walked order (fun key inside => (kept.keys key).mp (all.subset inside)), (all.map List.length).sum_eq,
    all.length_eq, ← kept.bytes, ← kept.count]
  rfl

/-- The gauge of the file grows with the file, or is set to its size, or is forgotten. -/
theorem step_size (g : Gauged) {e : GaugeEvent} (plain : e.isClean = false) :
    (∃ more, (g.step e).indexSize = g.indexSize + more ∧ (g.step e).indexBytesOnDisk = g.indexBytesOnDisk + more) ∨
      (g.step e).indexBytesOnDisk = (g.step e).indexSize ∨
      (g.step e).indexBytesOnDisk = 0 ∧ e.forgets = true := by
  cases e with
  | put key value => exact .inl ⟨0, rfl, rfl⟩
  | putAsync key value => exact .inl ⟨0, rfl, rfl⟩
  | flush n =>
    left
    cases done : g.flushPending n with
    | none => exact ⟨0, by rw [Gauged.step, done]; rfl, by rw [Gauged.step, done]; rfl⟩
    | some g' =>
      rw [Gauged.step, done]
      exact ⟨_, (flushed_flushPending done).size, (flushed_flushPending done).gauge⟩
  | get key => exact .inl ⟨0, by rw [indexSize, Gauged.step, (sameKeys_load _ _).index]; rfl, rfl⟩
  | clean order => cases plain
  | clear => exact .inr (.inl rfl)
  | reopen => exact .inr (.inr ⟨rfl, rfl⟩)
  | tick now order fault =>
    rcases tick_cases g now order fault with same | ⟨drained, last, done, same⟩
    · rw [Gauged.step, same]
      exact .inl ⟨0, rfl, rfl⟩
    · have flushed := drained_flushed done
      rw [Gauged.step, same]
      rcases doCompact_cases drained order fault with still | ⟨indexFile, stat, measured, failed⟩
      · rw [still]
        exact .inl ⟨_, flushed.size, flushed.gauge⟩
      · rw [measured]
        cases stat with
        | false => exact .inr (.inl rfl)
        | true =>
          refine .inr (.inr ⟨rfl, ?_⟩)
          rcases failed rfl with rfl | rfl <;> rfl

theorem covered_exec {events : List GaugeEvent} (covered : g.indexBytesOnDisk ≤ g.indexSize)
    (plain : ∀ e ∈ events, e.isClean = false) :
    (Runs.exec step g events).indexBytesOnDisk ≤ (Runs.exec step g events).indexSize := by
  refine Runs.invariant step (fun g => g.indexBytesOnDisk ≤ g.indexSize) (fun g' e covered plain => ?_) covered
    (Runs.along_of_forall _ plain)
  rcases step_size g' plain with ⟨more, size, gauge⟩ | exact | ⟨zero, -⟩
  · omega
  · omega
  · omega

theorem exact_exec {events : List GaugeEvent} (known : g.indexBytesOnDisk = g.indexSize)
    (plain : ∀ e ∈ events, e.isClean = false ∧ e.forgets = false) :
    (Runs.exec step g events).indexBytesOnDisk = (Runs.exec step g events).indexSize := by
  refine Runs.invariant step (fun g => g.indexBytesOnDisk = g.indexSize) (fun g' e known plain => ?_) known
    (Runs.along_of_forall _ plain)
  obtain ⟨cleaned, forgets⟩ := plain
  rcases step_size g' cleaned with ⟨more, size, gauge⟩ | exact | ⟨-, forgot⟩
  · omega
  · exact exact
  · rw [forgets] at forgot
    cases forgot

/-! ### The decision -/

theorem threshold_le_iff (threshold : ℚ) (actual : Nat) {expected : Nat} (pos : 0 < expected) :
    threshold ≤ (actual : ℚ) / expected ↔ threshold * expected ≤ actual :=
  le_div_iff₀ (by exact_mod_cast pos)

/-- The decision, in terms of what the next compaction would write. -/
theorem Kept.shouldCompact_iff (kept : g.Kept) {order : List Bytes} (all : order.Perm g.shard.keys) (now : Nat) :
    g.shouldCompact now = true ↔
      (∀ last ∈ g.worker.lastCompacted, g.worker.policy.minInterval ≤ now - last) ∧ 0 < g.indexBytesOnDisk ∧
        (g.maxDue now = true ∨ (∃ key ∈ g.shard.keys, key ≠ []) ∧
          g.worker.policy.ampThreshold * (indexBytes (g.shard.snapshot order)).length ≤ g.indexBytesOnDisk) := by
  have rate : (g.worker.lastCompacted.any fun last => decide (now - last < g.worker.policy.minInterval)) = false ↔
      ∀ last ∈ g.worker.lastCompacted, g.worker.policy.minInterval ≤ now - last := by
    cases g.worker.lastCompacted <;> simp
  have named : g.keyBytesInRAM = 0 ↔ ¬∃ key ∈ g.shard.keys, key ≠ [] := by
    rw [kept.bytes, List.sum_eq_zero_iff]
    simp
  rw [kept.snapshot_size all, ← rate]
  unfold shouldCompact
  split
  · next early => simp [early]
  next late =>
  have onTime := eq_false_of_ne_true late
  split
  · next empty => simp [empty]
  next some =>
  split
  · next none =>
    have unnamed : ¬∃ key ∈ g.shard.keys, key ≠ [] := by
      rcases none with zero | zero
      · exact named.mp zero
      · rw [kept.count, List.length_eq_zero_iff] at zero
        simp [zero]
    simp only [onTime, true_and, unnamed, false_and, or_false]
    exact ⟨fun due => ⟨by omega, due⟩, fun due => due.2⟩
  next many =>
  have here : ∃ key ∈ g.shard.keys, key ≠ [] := not_not.mp (fun unnamed => many (.inl (named.mpr unnamed)))
  simp only [onTime, true_and, here, Bool.or_eq_true, decide_eq_true_eq]
  have pos : 0 < g.keyBytesInRAM + g.numKeys * walIndexHeaderBytes := by omega
  have amp := threshold_le_iff g.worker.policy.ampThreshold g.indexBytesOnDisk pos
  unfold expectedIndexBytes
  push_cast at amp ⊢
  rw [amp]
  exact ⟨fun due => ⟨by omega, due⟩, fun due => due.2⟩

def run (worker : CompactWorker) (events : List GaugeEvent) : Gauged := Runs.exec step { worker } events

theorem kept_run (worker : CompactWorker) (events : List GaugeEvent) : (run worker events).Kept :=
  kept_exec (g := { worker }) ⟨by simp, .nil, rfl, rfl⟩ events

/-- Without a cleanup, a restart or a failed `Stat`, a compaction is due exactly if the last one is far enough
back, the index file is not empty, and the last one is too far back or the file is so many times as long as what
a compaction would write. -/
theorem compaction_due_iff (worker : CompactWorker) (events : List GaugeEvent)
    (plain : ∀ e ∈ events, e.isClean = false ∧ e.forgets = false) {order : List Bytes}
    (all : order.Perm (run worker events).shard.keys) (now : Nat) :
    (run worker events).shouldCompact now = true ↔
      (∀ last ∈ (run worker events).worker.lastCompacted,
        (run worker events).worker.policy.minInterval ≤ now - last) ∧
      0 < (run worker events).indexSize ∧
      ((run worker events).maxDue now = true ∨ (∃ key ∈ (run worker events).shard.keys, key ≠ []) ∧
        (run worker events).worker.policy.ampThreshold *
          (indexBytes ((run worker events).shard.snapshot order)).length ≤ (run worker events).indexSize) := by
  have known : (run worker events).indexBytesOnDisk = (run worker events).indexSize := exact_exec rfl plain
  rw [← known]
  exact (kept_run worker events).shouldCompact_iff all now

def defaultWorker : CompactWorker where
  policy := defaultCompactionPolicy
  reasonable := by decide

def fourPuts : List GaugeEvent :=
  [.put [107] [1], .put [107] [2], .put [107] [3], .put [107] [4], .flush 4]

theorem fourPuts_due : (run defaultWorker fourPuts).shouldCompact 0 = true ∧
    ((run defaultWorker fourPuts).shouldCompact 0 = true ↔
      (∀ last ∈ (run defaultWorker fourPuts).worker.lastCompacted,
        (run defaultWorker fourPuts).worker.policy.minInterval ≤ 0 - last) ∧
      0 < (run defaultWorker fourPuts).indexSize ∧
      ((run defaultWorker fourPuts).maxDue 0 = true ∨ (∃ key ∈ (run defaultWorker fourPuts).shard.keys, key ≠ []) ∧
        (run defaultWorker fourPuts).worker.policy.ampThreshold *
          (indexBytes ((run defaultWorker fourPuts).shard.snapshot [[107]])).length ≤
            (run defaultWorker fourPuts).indexSize)) :=
  ⟨by decide +kernel, compaction_due_iff defaultWorker fourPuts (by decide) (by decide +kernel) 0⟩

/-- A restart forgets the bytes of the file, and a cleanup leaves the old number: the same file is not due after
the first, and a file without a superfluous record is due after the second. -/
theorem fourPuts_misjudged :
    (run defaultWorker (fourPuts ++ [.reopen])).indexSize = 68 ∧
      (run defaultWorker (fourPuts ++ [.reopen])).shouldCompact 0 = false ∧
      (run defaultWorker (fourPuts ++ [.clean [[107]]])).indexSize = 17 ∧
      (run defaultWorker (fourPuts ++ [.clean [[107]]])).shouldCompact 0 = true := by
  decide +kernel

theorem Kept.expected_pos (kept : g.Kept) (nonempty : g.shard.keys ≠ []) : 0 < g.expectedIndexBytes := by
  have := List.length_pos_iff.mpr nonempty
  rw [← kept.count] at this
  simp only [expectedIndexBytes, walIndexHeaderBytes]
  omega

/-- A successful compaction leaves the walked entries, and the gauges agree with the file. -/
theorem Kept.tick_eq (kept : g.Kept) {drained : Gauged} (barrier : g.drainReqCh = some drained)
    {order : List Bytes} (all : order.Perm drained.shard.keys) {now : Nat} (due : g.shouldCompact now = true)
    (nonempty : drained.shard.keys ≠ []) :
    g.tick now order none =
      { ({ drained with shard := { drained.shard with indexFile := drained.shard.snapshot order } } :
          Gauged).reopenIndexFile false with
        worker := { drained.worker with lastCompacted := some now } } := by
  have kept' := (drained_flushed barrier).kept kept
  have many : drained.shard.snapshot order ≠ [] := by
    intro empty
    have size := kept'.snapshot_size all
    have pos := kept'.expected_pos nonempty
    rw [← size, empty] at pos
    exact absurd pos (Nat.lt_irrefl _)
  unfold tick
  rw [if_pos due, barrier]
  unfold doCompact
  dsimp only
  rw [if_neg many]
  rfl

/-- Without a cleanup, a compaction that the amplification makes due leaves one record for each key: what the
file held shrinks by that factor at least, and only the writes that waited can add to it. No other compaction is
due after it before its time. -/
theorem compactions_shrink_the_index (worker : CompactWorker) (events : List GaugeEvent)
    (plain : ∀ e ∈ events, e.isClean = false) {drained : Gauged}
    (barrier : (run worker events).drainReqCh = some drained) {order : List Bytes}
    (all : order.Perm drained.shard.keys) {now : Nat}
    (due : (run worker events).shouldCompact now = true) (early : (run worker events).maxDue now = false) :
    (run worker events).worker.policy.ampThreshold * ((run worker events).tick now order none).indexSize ≤
        (run worker events).indexSize +
          (run worker events).worker.policy.ampThreshold * idxTotal (run worker events).shard.pending ∧
      ((run worker events).tick now order none).indexSize < drained.indexSize ∧
      ∀ later, ((run worker events).tick now order none).shouldCompact later = true →
        ((run worker events).tick now order none).maxDue later = true := by
  have covered : (run worker events).indexBytesOnDisk ≤ (run worker events).indexSize := covered_exec (by rfl) plain
  have kept := kept_run worker events
  generalize run worker events = g at *
  obtain ⟨-, -, late | ⟨⟨key, inside, -⟩, amplified⟩⟩ := (kept.shouldCompact_iff (List.Perm.refl _) now).mp due
  · rw [early] at late
    cases late
  rw [kept.snapshot_size (List.Perm.refl _)] at amplified
  have flushed := drained_flushed barrier
  have kept' := flushed.kept kept
  have some := List.ne_nil_of_mem (flushed.keys key inside)
  have done := kept.tick_eq barrier all due some
  have size : (g.tick now order none).indexSize = drained.expectedIndexBytes := by
    rw [done, ← kept'.snapshot_size all]
    rfl
  have more := g.worker.reasonable.2.2.2.1
  have bound : (drained.expectedIndexBytes : ℚ) ≤ g.expectedIndexBytes + idxTotal g.shard.pending := by
    exact_mod_cast flushed.expected
  have shrinks : g.worker.policy.ampThreshold * g.expectedIndexBytes ≤ g.indexSize :=
    amplified.trans (by exact_mod_cast covered)
  refine ⟨?_, ?_, fun later again => ?_⟩
  · rw [size]
    calc g.worker.policy.ampThreshold * drained.expectedIndexBytes
        ≤ g.worker.policy.ampThreshold * (g.expectedIndexBytes + idxTotal g.shard.pending) :=
          mul_le_mul_of_nonneg_left bound (by linarith)
      _ ≤ _ := by rw [mul_add]; exact add_le_add shrinks le_rfl
  · have grows : (g.expectedIndexBytes : ℚ) < g.worker.policy.ampThreshold * g.expectedIndexBytes :=
      lt_mul_of_one_lt_left (by exact_mod_cast kept.expected_pos (List.ne_nil_of_mem inside)) more
    have less : g.expectedIndexBytes < g.indexSize := by exact_mod_cast grows.trans_le shrinks
    have := flushed.expected
    rw [size, flushed.size]
    omega
  · have grows : (drained.expectedIndexBytes : ℚ) <
        g.worker.policy.ampThreshold * drained.expectedIndexBytes :=
      lt_mul_of_one_lt_left (by exact_mod_cast kept'.expected_pos some) more
    have kept'' : (g.tick now order none).Kept := kept.step (.tick now order none)
    have all' : order.Perm (g.tick now order none).shard.keys := by rw [done]; exact all
    obtain ⟨-, -, tooLong | ⟨-, still⟩⟩ := (kept''.shouldCompact_iff all' later).mp again
    · exact tooLong
    · rw [done] at still
      have same : (indexBytes (drained.shard.snapshot order)).length = drained.expectedIndexBytes :=
        kept'.snapshot_size all
      rw [← flushed.worker, ← same] at grows
      exact absurd (grows.trans_le still) (lt_irrefl _)

def fiveWaiting : List GaugeEvent :=
  fourPuts ++ [.put [1] [], .put [2] [], .put [3] [], .put [4] [], .put [5] []]

theorem fiveWaiting_compacted : ∃ drained, (run defaultWorker fiveWaiting).drainReqCh = some drained ∧
    (run defaultWorker fiveWaiting).indexSize = 68 ∧ drained.indexSize = 153 ∧
    ((run defaultWorker fiveWaiting).tick 0 [[107], [1], [2], [3], [4], [5]] none).indexSize = 102 ∧
    ((run defaultWorker fiveWaiting).tick 0 [[107], [1], [2], [3], [4], [5]] none).indexSize < drained.indexSize := by
  refine ⟨_, rfl, by decide +kernel, by decide +kernel, by decide +kernel, ?_⟩
  exact (compactions_shrink_the_index defaultWorker fiveWaiting (by decide) rfl (by decide +kernel)
    (by decide +kernel) (by decide +kernel)).2.1

end Gauged

end Engine

end Kvgo

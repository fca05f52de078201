import Kvgo.Engine.Crash
import Kvgo.Engine.Loading

/-! Cleanup of a shard (`cleanup.go`): the live values are copied to a fresh value file and an index
with new offsets, through two buffers that are written out at different times. -/

namespace Kvgo

namespace Engine

def cleanupIndexBufferSize : Nat := 1024 * 1024

def cleanupFlushThreshold : Nat := 512 * 1024

/-- How a cleanup can end early; `outOfRange` is the panic of a slice expression. -/
inductive CleanupError where
  | outOfRange
  | read (e : ReadError)
  | create
  | write
  | sync
  | close
  | rename
  | reopen
  deriving DecidableEq, Repr

/-- The local variables of `writeCleanupData`, the shard it reads and the files it appends to. Only
the filled part of `indexBuf` is kept: `encodeInto` overwrites all of the slice it is given. -/
structure Cleaning where
  shard : Shard
  tempIndex : Bytes := []
  tempValue : Bytes := []
  indexBuf : Bytes := []
  valueBuf : Bytes := []
  newOffsets : List (Bytes × Nat) := []
  newValueOffset : Nat := 0
  writes : Nat := 0

namespace Cleaning

def andThen (r : Except CleanupError Unit × Cleaning)
    (next : Cleaning → Except CleanupError Unit × Cleaning) : Except CleanupError Unit × Cleaning :=
  match r with
  | (.error e, c) => (.error e, c)
  | (.ok (), c) => next c

/-- `tempValueFile.Write(valueBuf)`; the plan says after how many bytes which write fails. -/
def flushValues (plan : Nat → Option Nat) (c : Cleaning) : Except CleanupError Unit × Cleaning :=
  match plan c.writes with
  | none => (.ok (), { c with tempValue := c.tempValue ++ c.valueBuf, valueBuf := [], writes := c.writes + 1 })
  | some n =>
    (.error .write, { c with tempValue := c.tempValue ++ c.valueBuf.take n, writes := c.writes + 1 })

/-- `tempIndexFile.Write(indexBuf)` -/
def flushIndex (plan : Nat → Option Nat) (c : Cleaning) : Except CleanupError Unit × Cleaning :=
  match plan c.writes with
  | none => (.ok (), { c with tempIndex := c.tempIndex ++ c.indexBuf, indexBuf := [], writes := c.writes + 1 })
  | some n =>
    (.error .write, { c with tempIndex := c.tempIndex ++ c.indexBuf.take n, writes := c.writes + 1 })

def addValue (plan : Nat → Option Nat) (value : Bytes) (c : Cleaning) :
    Except CleanupError Unit × Cleaning :=
  if 0 < value.length then
    let c := { c with valueBuf := c.valueBuf ++ value }
    if cleanupFlushThreshold ≤ c.valueBuf.length then c.flushValues plan else (.ok (), c)
  else (.ok (), c)

/-- The record goes behind those in the buffer: `indexBuf[:oldLen+entrySize]` has to stay within its
capacity. -/
def appendEntry (key : Bytes) (vlen : Nat) (c : Cleaning) : Except CleanupError Unit × Cleaning :=
  let entrySize := walIndexLen key.length
  if cleanupIndexBufferSize < c.indexBuf.length + entrySize then (.error .outOfRange, c)
  else
    match encodeInto (List.replicate entrySize 0) key vlen c.newValueOffset with
    | none => (.error .outOfRange, c)
    | some dst =>
      (.ok (), { c with
        indexBuf := c.indexBuf ++ dst
        newValueOffset := c.newValueOffset + vlen })

def addEntry (plan : Nat → Option Nat) (key : Bytes) (vlen : Nat) (c : Cleaning) :
    Except CleanupError Unit × Cleaning :=
  let c := { c with newOffsets := c.newOffsets ++ [(key, c.newValueOffset)] }
  andThen
    (if cleanupIndexBufferSize - c.indexBuf.length < walIndexLen key.length then c.flushIndex plan
      else (.ok (), c))
    (appendEntry key vlen)

def visit (plan : Nat → Option Nat) (key : Bytes) (c : Cleaning) : Except CleanupError Unit × Cleaning :=
  match c.shard.get key with
  | (.error e, shard) => (.error (.read e), { c with shard })
  | (.ok none, shard) => (.ok (), { c with shard })
  | (.ok (some value), shard) =>
    andThen (addValue plan value { c with shard }) (addEntry plan key value.length)

def visitAll (plan : Nat → Option Nat) : List Bytes → Cleaning → Except CleanupError Unit × Cleaning
  | [], c => (.ok (), c)
  | key :: rest, c => andThen (c.visit plan key) (visitAll plan rest)

def finish (plan : Nat → Option Nat) (c : Cleaning) : Except CleanupError Unit × Cleaning :=
  andThen (if 0 < c.valueBuf.length then c.flushValues plan else (.ok (), c))
    (fun c => if 0 < c.indexBuf.length then c.flushIndex plan else (.ok (), c))

end Cleaning

open Cleaning in
/-- `writeCleanupData` on temp files with this content, where the map is walked in this order. -/
def writeCleanupData (plan : Nat → Option Nat) (shard : Shard) (tempIndex tempValue : Bytes)
    (order : List Bytes) : Except CleanupError Unit × Cleaning :=
  andThen (visitAll plan order { shard, tempIndex, tempValue }) (finish plan)

/-- The part of `updateShardAfterCleanup` behind `newWAL`: the new files are open, and the offsets in
memory follow them. -/
def Shard.updateAfterCleanup (s : Shard) (index values : Bytes) (newOffsets : List (Bytes × Nat))
    (newValueOffset : Nat) : Shard :=
  { s with
    data := fun key => (s.data key).map (fun ve => { ve with offset := (newOffsets.lookup key).getD ve.offset })
    indexFile := (readIndex index).1
    valueFile := values
    position := 0
    valueOffset := newValueOffset }

/-! The batch whose flush would write the same files. -/

def liveBatch (latest : Bytes → Option Bytes) (order : List Bytes) : List WriteRequest :=
  order.map (fun key => ⟨key, (latest key).getD [], true⟩)

def offsetsOf : Nat → List WriteRequest → List (Bytes × Nat)
  | _, [] => []
  | offset, r :: rest => (r.key, offset) :: offsetsOf (offset + r.value.length) rest

theorem encodeBatch_append (offset : Nat) (first second : List WriteRequest) :
    Shard.encodeBatch offset (first ++ second) = Shard.encodeBatch offset first ++
      Shard.encodeBatch (offset + (first.map WriteRequest.value).flatten.length) second := by
  induction first generalizing offset with
  | nil => simp [Shard.encodeBatch]
  | cons r rest ih => simp [Shard.encodeBatch, ih, Nat.add_assoc]

theorem offsetsOf_append (offset : Nat) (first second : List WriteRequest) :
    offsetsOf offset (first ++ second) = offsetsOf offset first ++
      offsetsOf (offset + (first.map WriteRequest.value).flatten.length) second := by
  induction first generalizing offset with
  | nil => simp [offsetsOf]
  | cons r rest ih => simp [offsetsOf, ih, Nat.add_assoc]

/-- Both temp files with what waits in their buffers, once the values of `batch` went through. -/
structure Wrote (index values : Bytes) (batch : List WriteRequest) (c : Cleaning) : Prop where
  index : c.tempIndex ++ c.indexBuf = index ++ indexBytes (Shard.encodeBatch 0 batch)
  values : c.tempValue ++ c.valueBuf = values ++ (batch.map WriteRequest.value).flatten
  offset : c.newValueOffset = (batch.map WriteRequest.value).flatten.length
  offsets : c.newOffsets = offsetsOf 0 batch
  fits : c.indexBuf.length ≤ cleanupIndexBufferSize

theorem wrote_start (shard : Shard) (tempIndex tempValue : Bytes) :
    Wrote tempIndex tempValue [] { shard, tempIndex, tempValue } := by
  constructor <;> simp [Shard.encodeBatch, offsetsOf]

namespace Cleaning

variable {plan : Nat → Option Nat} {c : Cleaning}

theorem andThen_ok (next : Cleaning → Except CleanupError Unit × Cleaning) :
    andThen (.ok (), c) next = next c := rfl

def never : Nat → Option Nat := fun _ => none

theorem flushValues_never (c : Cleaning) : c.flushValues never =
    (.ok (), { c with tempValue := c.tempValue ++ c.valueBuf, valueBuf := [], writes := c.writes + 1 }) := rfl

theorem flushIndex_never (c : Cleaning) : c.flushIndex never =
    (.ok (), { c with tempIndex := c.tempIndex ++ c.indexBuf, indexBuf := [], writes := c.writes + 1 }) := rfl

theorem addValue_never (value : Bytes) (c : Cleaning) : ∃ tempValue valueBuf writes,
    addValue never value c = (.ok (), { c with tempValue, valueBuf, writes }) ∧
      tempValue ++ valueBuf = c.tempValue ++ c.valueBuf ++ value := by
  unfold addValue
  by_cases some : 0 < value.length
  · rw [if_pos some]
    dsimp only
    by_cases full : cleanupFlushThreshold ≤ (c.valueBuf ++ value).length
    · exact ⟨c.tempValue ++ (c.valueBuf ++ value), [], c.writes + 1, by rw [if_pos full]; rfl, by simp⟩
    · exact ⟨c.tempValue, c.valueBuf ++ value, c.writes, by rw [if_neg full], by simp⟩
  · obtain rfl : value = [] := List.length_eq_zero_iff.mp (by omega)
    exact ⟨c.tempValue, c.valueBuf, c.writes, by rw [if_neg some], by simp⟩

theorem makeRoom_never (size : Nat) (c : Cleaning) (fits : c.indexBuf.length ≤ cleanupIndexBufferSize) :
    ∃ tempIndex indexBuf writes,
      (if cleanupIndexBufferSize - c.indexBuf.length < size then c.flushIndex never else (.ok (), c)) =
        (.ok (), { c with tempIndex, indexBuf, writes }) ∧ tempIndex ++ indexBuf = c.tempIndex ++ c.indexBuf ∧
      (indexBuf = [] ∨ indexBuf.length + size ≤ cleanupIndexBufferSize) := by
  by_cases full : cleanupIndexBufferSize - c.indexBuf.length < size
  · exact ⟨c.tempIndex ++ c.indexBuf, [], c.writes + 1, by rw [if_pos full]; rfl, by simp, .inl rfl⟩
  · exact ⟨c.tempIndex, c.indexBuf, c.writes, by rw [if_neg full], rfl, .inr (by omega)⟩

theorem encodeInto_zeros (key : Bytes) (vlen offset : Nat) :
    encodeInto (List.replicate (walIndexLen key.length) 0) key vlen offset =
      some (entryBytes (encodeEntry key vlen offset)) := by
  rw [encodeInto_eq key vlen offset (by rw [List.length_replicate]), List.drop_replicate, Nat.sub_self,
    List.replicate_zero, List.append_nil]

theorem addEntry_never {key : Bytes} (vlen : Nat) (fits : c.indexBuf.length ≤ cleanupIndexBufferSize)
    (short : walIndexLen key.length ≤ cleanupIndexBufferSize) : ∃ tempIndex indexBuf writes,
    addEntry never key vlen c = (.ok (), { c with
        tempIndex, indexBuf, writes
        newOffsets := c.newOffsets ++ [(key, c.newValueOffset)]
        newValueOffset := c.newValueOffset + vlen }) ∧
      tempIndex ++ indexBuf =
        c.tempIndex ++ c.indexBuf ++ entryBytes (encodeEntry key vlen c.newValueOffset) ∧
      indexBuf.length ≤ cleanupIndexBufferSize := by
  obtain ⟨tempIndex, indexBuf, writes, made, same, room⟩ :=
    makeRoom_never (walIndexLen key.length) { c with newOffsets := c.newOffsets ++ [(key, c.newValueOffset)] } fits
  have inside : indexBuf.length + walIndexLen key.length ≤ cleanupIndexBufferSize := by
    rcases room with rfl | room
    · simpa using short
    · exact room
  refine ⟨tempIndex, indexBuf ++ entryBytes (encodeEntry key vlen c.newValueOffset), writes, ?_, ?_, ?_⟩
  · simp only [addEntry, made, andThen_ok, appendEntry, if_neg (Nat.not_lt.mpr inside), encodeInto_zeros]
  · rw [← List.append_assoc, same]
  · rw [List.length_append, entryBytes_length]
    exact inside

theorem addEntry_long {key : Bytes} (vlen : Nat) (fits : c.indexBuf.length ≤ cleanupIndexBufferSize)
    (long : cleanupIndexBufferSize < walIndexLen key.length) :
    (addEntry never key vlen c).1 = .error .outOfRange := by
  obtain ⟨tempIndex, indexBuf, writes, made, _, _⟩ :=
    makeRoom_never (walIndexLen key.length) { c with newOffsets := c.newOffsets ++ [(key, c.newValueOffset)] } fits
  have outside : cleanupIndexBufferSize < indexBuf.length + walIndexLen key.length := by omega
  simp only [addEntry, made, andThen_ok, appendEntry, if_pos outside]

/-- What one visited key adds. -/
theorem visit_never {index values : Bytes} {batch : List WriteRequest} (wrote : Wrote index values batch c)
    {key value : Bytes} {shard : Shard} (read : c.shard.get key = (.ok (some value), shard))
    (short : walIndexLen key.length ≤ cleanupIndexBufferSize) : ∃ c', c.visit never key = (.ok (), c') ∧
      Wrote index values (batch ++ [⟨key, value, true⟩]) c' ∧ c'.shard = shard := by
  obtain ⟨tempValue, valueBuf, writes, added, bytes⟩ := addValue_never value { c with shard }
  have fits : ({ c with shard, tempValue, valueBuf, writes } : Cleaning).indexBuf.length ≤
    cleanupIndexBufferSize := wrote.fits
  obtain ⟨tempIndex, indexBuf, writes', entered, records, room⟩ := addEntry_never value.length fits short
  have whole : c.visit never key = (.ok (), {
      shard, tempIndex, tempValue, indexBuf, valueBuf
      newOffsets := c.newOffsets ++ [(key, c.newValueOffset)]
      newValueOffset := c.newValueOffset + value.length
      writes := writes' }) := by
    simp only [visit, read, added, andThen_ok, entered]
  refine ⟨_, whole, ⟨?_, ?_, ?_, ?_, room⟩, rfl⟩
  · dsimp only at records ⊢
    rw [records, wrote.index, wrote.offset, encodeBatch_append]
    simp [Shard.encodeBatch]
  · dsimp only at bytes ⊢
    rw [bytes, wrote.values]
    simp
  · dsimp only
    rw [wrote.offset]
    simp
  · dsimp only
    rw [wrote.offset, wrote.offsets, offsetsOf_append]
    simp [offsetsOf]

theorem visit_long {index values : Bytes} {batch : List WriteRequest} (wrote : Wrote index values batch c)
    {key value : Bytes} {shard : Shard} (read : c.shard.get key = (.ok (some value), shard))
    (long : cleanupIndexBufferSize < walIndexLen key.length) :
    (c.visit never key).1 = .error .outOfRange := by
  obtain ⟨tempValue, valueBuf, writes, added, _⟩ := addValue_never value { c with shard }
  have fits : ({ c with shard, tempValue, valueBuf, writes } : Cleaning).indexBuf.length ≤
    cleanupIndexBufferSize := wrote.fits
  simp only [visit, read, added, andThen_ok]
  exact addEntry_long value.length fits long

end Cleaning

namespace Cleaning

variable {c : Cleaning}

theorem visitAll_never {index values : Bytes} {batch : List WriteRequest} {latest : Bytes → Option Bytes}
    {order : List Bytes} (wrote : Wrote index values batch c) (backed : Backed c.shard latest)
    (known : ∀ key ∈ order, (latest key).isSome) (finds : Runs.Along Shard.load Shard.Finds c.shard order)
    (short : ∀ key ∈ order, walIndexLen key.length ≤ cleanupIndexBufferSize) :
    ∃ c', visitAll never order c = (.ok (), c') ∧ Wrote index values (batch ++ liveBatch latest order) c' ∧
      c'.shard = Runs.exec Shard.load c.shard order := by
  induction order generalizing c batch with
  | nil => exact ⟨c, rfl, by simpa [liveBatch] using wrote, rfl⟩
  | cons key rest ih =>
    obtain ⟨value, last⟩ := Option.isSome_iff_exists.mp (known key (by simp))
    obtain ⟨ve, position, _, read⟩ := backed.get_eq finds.1 last
    obtain ⟨c₁, visited, wrote₁, shard⟩ := visit_never wrote read (short key (by simp))
    have loaded : c₁.shard = c.shard.load key := by rw [shard, Shard.load, read]
    obtain ⟨c₂, later, wrote₂, shard₂⟩ := ih wrote₁ (loaded ▸ (backed.find finds.1).2)
      (fun other inside => known other (by simp [inside])) (loaded ▸ finds.2)
      (fun other inside => short other (by simp [inside]))
    refine ⟨c₂, ?_, ?_, ?_⟩
    · rw [visitAll, visited, andThen_ok, later]
    · simpa [liveBatch, last] using wrote₂
    · rw [shard₂, loaded]
      rfl

/-- One long key anywhere in the walk ends it with a panic. -/
theorem visitAll_long {index values : Bytes} {batch : List WriteRequest} {latest : Bytes → Option Bytes}
    {order : List Bytes} (wrote : Wrote index values batch c) (backed : Backed c.shard latest)
    (known : ∀ key ∈ order, (latest key).isSome) (finds : Runs.Along Shard.load Shard.Finds c.shard order)
    (long : ∃ key ∈ order, cleanupIndexBufferSize < walIndexLen key.length) :
    (visitAll never order c).1 = .error .outOfRange := by
  induction order generalizing c batch with
  | nil =>
    obtain ⟨key, inside, -⟩ := long
    cases inside
  | cons key rest ih =>
    obtain ⟨value, last⟩ := Option.isSome_iff_exists.mp (known key (by simp))
    obtain ⟨ve, position, _, read⟩ := backed.get_eq finds.1 last
    by_cases here : cleanupIndexBufferSize < walIndexLen key.length
    · have stopped := visit_long wrote read here
      rw [visitAll]
      generalize c.visit never key = result at stopped
      obtain ⟨outcome, c₁⟩ := result
      obtain rfl : outcome = .error .outOfRange := stopped
      rfl
    · obtain ⟨c₁, visited, wrote₁, shard⟩ := visit_never wrote read (Nat.not_lt.mp here)
      have loaded : c₁.shard = c.shard.load key := by rw [shard, Shard.load, read]
      rw [visitAll, visited, andThen_ok]
      refine ih wrote₁ (loaded ▸ (backed.find finds.1).2) (fun other inside => known other (by simp [inside]))
        (loaded ▸ finds.2) ?_
      obtain ⟨other, inside, tooLong⟩ := long
      rcases List.mem_cons.mp inside with rfl | later
      · exact absurd tooLong here
      · exact ⟨other, later, tooLong⟩

theorem finish_never (c : Cleaning) : ∃ writes, finish never c =
    (.ok (), { c with
      tempIndex := c.tempIndex ++ c.indexBuf
      tempValue := c.tempValue ++ c.valueBuf
      indexBuf := []
      valueBuf := []
      writes }) := by
  obtain ⟨shard, tempIndex, tempValue, indexBuf, valueBuf, newOffsets, newValueOffset, writes⟩ := c
  have empty {bytes : Bytes} (none : ¬0 < bytes.length) : bytes = [] := List.length_eq_zero_iff.mp (by omega)
  unfold finish
  by_cases values : 0 < valueBuf.length
  · by_cases index : 0 < indexBuf.length
    · exact ⟨writes + 2, by simp only [if_pos values, flushValues_never, andThen_ok, if_pos index]; rfl⟩
    · obtain rfl := empty index
      exact ⟨writes + 1, by simp [values, flushValues_never, andThen_ok]⟩
  · obtain rfl := empty values
    by_cases index : 0 < indexBuf.length
    · exact ⟨writes + 1, by simp [index, flushIndex_never, andThen_ok]⟩
    · obtain rfl := empty index
      exact ⟨writes, by simp [andThen_ok]⟩

end Cleaning

open Cleaning

/-- What a cleanup makes of the temp files when every value is found: behind what they held, the files
that flushing the whole map to an empty shard would give. -/
theorem writeCleanupData_never {s : Shard} {latest : Bytes → Option Bytes} (backed : Backed s latest)
    {order : List Bytes} (known : ∀ key ∈ order, (latest key).isSome)
    (finds : Runs.Along Shard.load Shard.Finds s order)
    (short : ∀ key ∈ order, walIndexLen key.length ≤ cleanupIndexBufferSize) (tempIndex tempValue : Bytes) :
    ∃ c, writeCleanupData never s tempIndex tempValue order = (.ok (), c) ∧
      c.tempIndex = tempIndex ++ indexBytes (Shard.encodeBatch 0 (liveBatch latest order)) ∧
      c.tempValue = tempValue ++ ((liveBatch latest order).map WriteRequest.value).flatten ∧
      c.newValueOffset = ((liveBatch latest order).map WriteRequest.value).flatten.length ∧
      c.newOffsets = offsetsOf 0 (liveBatch latest order) ∧ c.shard = Runs.exec Shard.load s order := by
  obtain ⟨c, walked, wrote, shard⟩ := visitAll_never (wrote_start s tempIndex tempValue) backed known finds short
  rw [List.nil_append] at wrote
  obtain ⟨writes, finished⟩ := finish_never c
  rw [← andThen_ok (finish never), ← walked] at finished
  exact ⟨_, finished, wrote.index, wrote.values, wrote.offset, wrote.offsets, shard⟩

/-! Nothing but a long key leaves the index buffer. -/

def Ranged (r : Except CleanupError Unit × Cleaning) : Prop :=
  r.1 ≠ .error .outOfRange ∧ r.2.indexBuf.length ≤ cleanupIndexBufferSize

theorem Ranged.andThen {r : Except CleanupError Unit × Cleaning}
    {next : Cleaning → Except CleanupError Unit × Cleaning} (ranged : Ranged r)
    (each : ∀ c, c.indexBuf.length ≤ cleanupIndexBufferSize → Ranged (next c)) :
    Ranged (Cleaning.andThen r next) := by
  obtain ⟨outcome, c⟩ := r
  cases outcome with
  | error e => exact ranged
  | ok _ => exact each c ranged.2

section

variable {plan : Nat → Option Nat} {c : Cleaning} {key : Bytes}

theorem ranged_flushValues (fits : c.indexBuf.length ≤ cleanupIndexBufferSize) : Ranged (c.flushValues plan) := by
  unfold flushValues
  cases plan c.writes with
  | none => exact ⟨by simp, fits⟩
  | some n => exact ⟨by simp, fits⟩

theorem ranged_flushIndex (fits : c.indexBuf.length ≤ cleanupIndexBufferSize) : Ranged (c.flushIndex plan) := by
  unfold flushIndex
  cases plan c.writes with
  | none => exact ⟨by simp, by simp⟩
  | some n => exact ⟨by simp, fits⟩

theorem ranged_addValue (value : Bytes) (fits : c.indexBuf.length ≤ cleanupIndexBufferSize) :
    Ranged (addValue plan value c) := by
  unfold addValue
  split
  · dsimp only
    split
    · exact ranged_flushValues fits
    · exact ⟨by simp, fits⟩
  · exact ⟨by simp, fits⟩

theorem ranged_appendEntry (vlen : Nat)
    (room : c.indexBuf.length + walIndexLen key.length ≤ cleanupIndexBufferSize) :
    Ranged (appendEntry key vlen c) := by
  simp only [appendEntry, if_neg (Nat.not_lt.mpr room), encodeInto_zeros]
  refine ⟨by simp, ?_⟩
  rw [List.length_append, entryBytes_length]
  exact room

theorem ranged_addEntry (vlen : Nat) (short : walIndexLen key.length ≤ cleanupIndexBufferSize)
    (fits : c.indexBuf.length ≤ cleanupIndexBufferSize) : Ranged (addEntry plan key vlen c) := by
  unfold addEntry
  dsimp only
  by_cases full : cleanupIndexBufferSize - c.indexBuf.length < walIndexLen key.length
  · rw [if_pos full, flushIndex]
    cases plan c.writes with
    | none => exact ranged_appendEntry vlen (by simpa using short)
    | some n => exact ⟨by simp [Cleaning.andThen], fits⟩
  · rw [if_neg full]
    exact ranged_appendEntry vlen (by dsimp only; omega)

theorem ranged_visit (short : walIndexLen key.length ≤ cleanupIndexBufferSize)
    (fits : c.indexBuf.length ≤ cleanupIndexBufferSize) : Ranged (c.visit plan key) := by
  unfold visit
  generalize c.shard.get key = result
  obtain ⟨answer, shard⟩ := result
  cases answer with
  | error e => exact ⟨by simp, fits⟩
  | ok found =>
    cases found with
    | none => exact ⟨by simp, fits⟩
    | some value =>
      have kept : ({ c with shard } : Cleaning).indexBuf.length ≤ cleanupIndexBufferSize := fits
      exact Ranged.andThen (ranged_addValue value kept) (fun _ fits => ranged_addEntry value.length short fits)

theorem ranged_visitAll {order : List Bytes}
    (short : ∀ key ∈ order, walIndexLen key.length ≤ cleanupIndexBufferSize)
    (fits : c.indexBuf.length ≤ cleanupIndexBufferSize) : Ranged (visitAll plan order c) := by
  induction order generalizing c with
  | nil => exact ⟨by simp [visitAll], fits⟩
  | cons key rest ih =>
    exact (ranged_visit (short key (by simp)) fits).andThen
      (fun _ fits => ih (fun other inside => short other (by simp [inside])) fits)

theorem ranged_finish (fits : c.indexBuf.length ≤ cleanupIndexBufferSize) : Ranged (c.finish plan) := by
  unfold finish
  refine Ranged.andThen ?_ (fun c fits => ?_)
  · split
    · exact ranged_flushValues fits
    · exact ⟨by simp, fits⟩
  · split
    · exact ranged_flushIndex fits
    · exact ⟨by simp, fits⟩

end

/-- The keys that `writeCleanupData` can record. -/
theorem walIndexLen_le {key : Bytes} :
    walIndexLen key.length ≤ cleanupIndexBufferSize ↔ key.length ≤ cleanupIndexBufferSize - 16 := by
  rw [walIndexLen, walIndexHeaderBytes, cleanupIndexBufferSize]
  omega

theorem Backed.isSome_iff {s : Shard} {latest : Bytes → Option Bytes} (backed : Backed s latest) (key : Bytes) :
    (s.data key).isSome ↔ (latest key).isSome := by
  have here := backed key
  cases found : s.data key with
  | none =>
    simp only [found] at here
    simp [here]
  | some ve =>
    simp only [found] at here
    obtain ⟨value, last, -⟩ := here
    simp [last]

theorem writeCleanupData_long {s : Shard} {latest : Bytes → Option Bytes} (backed : Backed s latest)
    {order : List Bytes} (known : ∀ key ∈ order, (latest key).isSome)
    (finds : Runs.Along Shard.load Shard.Finds s order)
    (long : ∃ key ∈ order, cleanupIndexBufferSize - 16 < key.length) (tempIndex tempValue : Bytes) :
    (writeCleanupData never s tempIndex tempValue order).1 = .error .outOfRange := by
  obtain ⟨key, inside, tooLong⟩ := long
  have stopped := visitAll_long (wrote_start s tempIndex tempValue) backed known finds
    ⟨key, inside, by rw [← Nat.not_le, walIndexLen_le]; omega⟩
  rw [writeCleanupData]
  generalize visitAll never order { shard := s, tempIndex, tempValue } = result at stopped
  obtain ⟨outcome, c⟩ := result
  obtain rfl : outcome = .error .outOfRange := stopped
  rfl

/-- Where all values are found, a cleanup stays within its buffers exactly if no key is longer than the
index buffer can hold; short keys are enough whatever the reads and writes do. -/
theorem cleanup_in_buffers_iff (s : Shard) (latest : Bytes → Option Bytes) (backed : Backed s latest)
    (map : ∀ key, key ∈ s.keys ↔ (s.data key).isSome) (order : List Bytes) (all : order.Perm s.keys)
    (tempIndex tempValue : Bytes) :
    (Runs.Along Shard.load Shard.Finds s order →
      ((writeCleanupData never s tempIndex tempValue order).1 ≠ .error .outOfRange ↔
        ∀ key ∈ s.keys, key.length ≤ cleanupIndexBufferSize - 16)) ∧
    ((∀ key ∈ s.keys, key.length ≤ cleanupIndexBufferSize - 16) →
      ∀ plan, (writeCleanupData plan s tempIndex tempValue order).1 ≠ .error .outOfRange) := by
  have ranged (short : ∀ key ∈ s.keys, key.length ≤ cleanupIndexBufferSize - 16) (plan : Nat → Option Nat) :
      (writeCleanupData plan s tempIndex tempValue order).1 ≠ .error .outOfRange := by
    have fits (key : Bytes) (inside : key ∈ order) : walIndexLen key.length ≤ cleanupIndexBufferSize :=
      walIndexLen_le.mpr (short key (all.mem_iff.mp inside))
    have start : ({ shard := s, tempIndex, tempValue } : Cleaning).indexBuf.length ≤ cleanupIndexBufferSize := by
      simp
    exact ((ranged_visitAll fits start).andThen (fun _ fits => ranged_finish fits)).1
  refine ⟨fun finds => ⟨fun safe => ?_, fun short => ranged short never⟩, ranged⟩
  by_contra long
  push Not at long
  obtain ⟨key, inside, tooLong⟩ := long
  have known (other : Bytes) (visited : other ∈ order) : (latest other).isSome :=
    (backed.isSome_iff other).mp ((map other).mp (all.mem_iff.mp visited))
  exact safe (writeCleanupData_long backed known finds ⟨key, all.mem_iff.mpr inside, tooLong⟩ _ _)

/-- Two keys whose values have to be loaded. -/
theorem twoKeys_cleanup : ∃ s reopened, flushAll {} twoKeys = some s ∧
    (openShard (indexBytes s.indexFile) s.valueFile).1 = some reopened ∧
    ((reopened.data [97]).map ValueEntry.payload, (reopened.data [98]).map ValueEntry.payload) =
      (some none, some none) ∧
    (writeCleanupData never reopened [] [] [[97], [98]]).1 ≠ .error .outOfRange := by
  obtain ⟨s, flushed⟩ : ∃ s, flushAll {} twoKeys = some s := ⟨_, rfl⟩
  have empty : Written {} (fun _ => none) := ⟨rfl, fun _ => rfl⟩
  have backed := (empty.flushAll (by decide) flushed).reopen_backed
  cases flushed
  refine ⟨_, _, rfl, rfl, by decide +kernel, ?_⟩
  exact ((cleanup_in_buffers_iff _ _ backed (Shard.reopen_replayed _ _).keys [[97], [98]] (by decide +kernel)
    [] []).1 (by decide +kernel)).mpr (by decide +kernel)

def oneKey (key : Bytes) : Shard := ({ indexFile := [encodeEntry key 0 0] } : Shard).putInternal key []

theorem flush_oneKey (key : Bytes) : ({} : Shard).flush [⟨key, [], true⟩] = some (oneKey key) := by
  simp [Shard.flush, Shard.writeValue, Shard.encodeBatch, Shard.applySync, oneKey]

theorem oneKey_backed (key : Bytes) : Backed (oneKey key) (Function.update (fun _ => none) key (some [])) := by
  have empty : Backed { indexFile := [encodeEntry key 0 0] } (fun _ => none) := fun _ => rfl
  exact empty.set key [] rfl

theorem oneKey_data (key : Bytes) : (oneKey key).data key = some { payload := some [], size := 0 } := by
  rw [oneKey, Shard.putInternal, Shard.setEntry_data, if_pos rfl]
  rfl

theorem oneKey_finds (key : Bytes) : Runs.Along Shard.load Shard.Finds (oneKey key) [key] := by
  refine ⟨fun ve found unloaded => ?_, trivial⟩
  rw [oneKey_data] at found
  cases found
  cases unloaded.1

/-- A key of 1048561 bytes fits into a request frame but its record does not fit into the buffer. -/
theorem longKey_cleanup_panics : ∃ s : Shard,
    ({} : Shard).flush [⟨List.replicate 1048561 107, [], true⟩] = some s ∧
      22 + (List.replicate 1048561 (107 : UInt8)).length ≤ 16 * 1024 * 1024 ∧
      (writeCleanupData never s [] [] [List.replicate 1048561 107]).1 = .error .outOfRange := by
  generalize long : List.replicate 1048561 (107 : UInt8) = key
  have length : key.length = 1048561 := by rw [← long, List.length_replicate]
  refine ⟨oneKey key, flush_oneKey key, by omega, ?_⟩
  refine writeCleanupData_long (oneKey_backed key) (by simp) (oneKey_finds key) ⟨key, by simp, ?_⟩ _ _
  rw [length, cleanupIndexBufferSize]
  omega

end Engine

end Kvgo

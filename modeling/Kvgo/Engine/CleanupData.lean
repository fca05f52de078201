import Kvgo.Engine.Cleanup

/-! What a cleanup writes and keeps. Every value passes through memory, so afterwards the shard answers
from there; the files are those of one flush of the whole map. -/

namespace Kvgo

namespace Engine

open Cleaning

def Resident (s : Shard) (latest : Bytes → Option Bytes) : Prop :=
  ∀ key, (s.data key).map ValueEntry.payload = (latest key).map some

section

variable {s : Shard} {latest : Bytes → Option Bytes} {order : List Bytes}

theorem Resident.get_eq (resident : Resident s latest) (key : Bytes) : s.get key = (.ok (latest key), s) := by
  have here := resident key
  cases found : s.data key with
  | none =>
    rw [found, Option.map_none, eq_comm, Option.map_eq_none_iff] at here
    simp only [Shard.get, found, here]
  | some ve =>
    rw [found, Option.map_some, eq_comm, Option.map_eq_some_iff] at here
    obtain ⟨value, last, held⟩ := here
    simp only [Shard.get, found, Shard.getValue, ← held, last]

theorem Resident.of_loads (backed : Backed s latest) (finds : Runs.Along Shard.load Shard.Finds s order)
    (all : ∀ key, (latest key).isSome → key ∈ order) : Resident (Runs.exec Shard.load s order) latest := by
  intro key
  cases last : latest key with
  | none =>
    have absent := (backed.loads finds).isSome_iff key
    rw [last] at absent
    simpa using absent
  | some value =>
    obtain ⟨ve, found, held⟩ := backed.loads_cache finds (all key (by simp [last])) last
    rw [found, Option.map_some, Option.map_some, held]

theorem Resident.updateAfterCleanup (resident : Resident s latest) (index values : Bytes)
    (newOffsets : List (Bytes × Nat)) (newValueOffset : Nat) :
    Resident (s.updateAfterCleanup index values newOffsets newValueOffset) latest := by
  intro key
  rw [← resident key]
  cases found : s.data key <;> simp [Shard.updateAfterCleanup, found]

end

/-! The records against the map. -/

theorem encodeBatch_keys (offset : Nat) (batch : List WriteRequest) :
    (Shard.encodeBatch offset batch).map IndexEntry.key = batch.map WriteRequest.key := by
  induction batch generalizing offset with
  | nil => rfl
  | cons r rest ih => simp [Shard.encodeBatch, encodeEntry, ih]

theorem liveBatch_keys (latest : Bytes → Option Bytes) (order : List Bytes) :
    (liveBatch latest order).map WriteRequest.key = order := by
  simp [liveBatch, Function.comp_def]

theorem recordsOf_mem {offset : Nat} {batch : List WriteRequest} {ie : IndexEntry} {value : Bytes}
    (inside : (ie, value) ∈ recordsOf offset batch) : ∃ r ∈ batch, r.key = ie.key ∧ r.value = value := by
  induction batch generalizing offset with
  | nil => cases inside
  | cons r rest ih =>
    rcases List.mem_cons.mp inside with here | later
    · cases here
      exact ⟨r, by simp, rfl, rfl⟩
    · obtain ⟨q, member, same⟩ := ih later
      exact ⟨q, by simp [member], same⟩

/-- The offsets in memory are those of the records. -/
theorem offsetsOf_lookup {offset : Nat} {batch : List WriteRequest} (nodup : (batch.map WriteRequest.key).Nodup)
    (room : offset + (batch.map WriteRequest.value).flatten.length < 2 ^ 64) {ie : IndexEntry}
    (inside : ie ∈ Shard.encodeBatch offset batch) :
    (offsetsOf offset batch).lookup ie.key = some ie.valueOffset := by
  induction batch generalizing offset with
  | nil => cases inside
  | cons r rest ih =>
    rw [List.map_cons, List.nodup_cons] at nodup
    simp only [List.map_cons, List.flatten_cons, List.length_append] at room
    rcases List.mem_cons.mp inside with rfl | later
    · have word : offset % 2 ^ 64 = offset := Nat.mod_eq_of_lt (by omega)
      simp only [offsetsOf, encodeEntry, List.lookup_cons, beq_self_eq_true, word]
    · have other : ie.key ≠ r.key := by
        rintro same
        apply nodup.1
        rw [← same, ← encodeBatch_keys (offset + r.value.length)]
        exact List.mem_map_of_mem later
      have apart : (ie.key == r.key) = false := by simpa using other
      simp only [offsetsOf, List.lookup_cons, apart]
      exact ih nodup.2 (by omega) later

/-- The temp files, the new offsets and the shard after a cleanup of empty temp files, as they should
be: one record for each key, its value in the new file, all of it still there to be read, and the end
of the new file known. -/
structure CleanedUp (latest : Bytes → Option Bytes) (order : List Bytes) (c : Cleaning)
    (entries : List IndexEntry) : Prop where
  decoded : readIndex c.tempIndex = (entries, none)
  keys : entries.map IndexEntry.key = order
  values : ∀ ie ∈ entries, ∃ value, latest ie.key = some value ∧ Placed c.tempValue ie value
  offsets : ∀ ie ∈ entries, c.newOffsets.lookup ie.key = some ie.valueOffset
  length : c.newValueOffset = c.tempValue.length
  reads : ∀ key, ((c.shard.updateAfterCleanup c.tempIndex c.tempValue c.newOffsets c.newValueOffset).get
    key).1 = .ok (latest key)
  appends : ∀ batch s', Small batch →
    (c.shard.updateAfterCleanup c.tempIndex c.tempValue c.newOffsets c.newValueOffset).flush batch = some s' →
    ∀ p ∈ recordsOf c.newValueOffset batch, Placed s'.valueFile p.1 p.2

section

variable {s : Shard} {latest : Bytes → Option Bytes} {order : List Bytes}

theorem liveBatch_small (short : ∀ key ∈ order, walIndexLen key.length ≤ cleanupIndexBufferSize)
    (small : ∀ key ∈ order, ((latest key).getD []).length < 2 ^ 32) : Small (liveBatch latest order) := by
  intro r inside
  obtain ⟨key, visited, rfl⟩ := List.mem_map.mp inside
  have fits := short key visited
  rw [walIndexLen, walIndexHeaderBytes, cleanupIndexBufferSize] at fits
  exact ⟨by dsimp only; omega, small key visited⟩

theorem Small.fits {offset : Nat} {batch : List WriteRequest} (small : Small batch) :
    ∀ ie ∈ Shard.encodeBatch offset batch, Fits ie :=
  encodeBatch_fits fun r inside => (small r inside).1

theorem cleanedUp_of_finds (backed : Backed s latest) (nodup : order.Nodup)
    (all : ∀ key, key ∈ order ↔ (latest key).isSome)
    (short : ∀ key ∈ order, walIndexLen key.length ≤ cleanupIndexBufferSize)
    (room : ((liveBatch latest order).map WriteRequest.value).flatten.length < 2 ^ 63)
    (small : ∀ key ∈ order, ((latest key).getD []).length < 2 ^ 32)
    (finds : Runs.Along Shard.load Shard.Finds s order) :
    ∃ c entries, writeCleanupData never s [] [] order = (.ok (), c) ∧ CleanedUp latest order c entries := by
  obtain ⟨c, done, index, values, offset, offsets, shard⟩ :=
    writeCleanupData_never backed (fun key inside => (all key).mp inside) finds short [] []
  rw [List.nil_append] at index values
  have bounds := liveBatch_small short small
  have start : ([] : Bytes).length + ((liveBatch latest order).map WriteRequest.value).flatten.length <
      2 ^ 63 := by
    simpa using room
  refine ⟨c, Shard.encodeBatch 0 (liveBatch latest order), done, ⟨?_, ?_, fun ie inside => ?_,
    fun ie inside => ?_, ?_, fun key => ?_, fun batch s' ok flushed p inside => ?_⟩⟩
  · rw [index, readIndex_indexBytes (Small.fits bounds)]
  · rw [encodeBatch_keys, liveBatch_keys]
  · rw [← recordsOf_fst] at inside
    obtain ⟨⟨_, value⟩, member, rfl⟩ := List.mem_map.mp inside
    obtain ⟨r, live, key, same⟩ := recordsOf_mem member
    obtain ⟨visited, known, rfl⟩ := List.mem_map.mp live
    obtain ⟨stored, last⟩ := Option.isSome_iff_exists.mp ((all visited).mp known)
    have placed := (recordsOf_placed bounds start _ member).1
    rw [List.nil_append, ← values] at placed
    dsimp only at key same
    rw [last, Option.getD_some] at same
    exact ⟨value, by rw [← key, last, same], placed⟩
  · rw [offsets]
    exact offsetsOf_lookup (by rwa [liveBatch_keys]) (by omega) inside
  · rw [offset, values]
  · have resident : Resident c.shard latest := by
      rw [shard]
      exact Resident.of_loads backed finds (fun key known => (all key).mpr known)
    rw [(resident.updateAfterCleanup _ _ _ _).get_eq]
  · have flushed := Shard.flush_eq_some flushed
    have room := flushed.room
    rw [flushed.values]
    have end_ : c.newValueOffset = c.tempValue.length := by rw [offset, values]
    rw [end_] at inside
    exact (recordsOf_placed ok room p inside).1

end

/-! The shard of a walk, whatever becomes of it. -/

namespace Cleaning

variable {plan : Nat → Option Nat} {c c' : Cleaning} {key : Bytes}

theorem andThen_eq_ok {r : Except CleanupError Unit × Cleaning}
    {next : Cleaning → Except CleanupError Unit × Cleaning} (done : andThen r next = (.ok (), c')) :
    ∃ c, r = (.ok (), c) ∧ next c = (.ok (), c') := by
  obtain ⟨outcome, c⟩ := r
  cases outcome with
  | error e => cases done
  | ok _ => exact ⟨c, rfl, done⟩

theorem andThen_shard {r : Except CleanupError Unit × Cleaning}
    {next : Cleaning → Except CleanupError Unit × Cleaning} (keeps : ∀ c, (next c).2.shard = c.shard) :
    (andThen r next).2.shard = r.2.shard := by
  obtain ⟨outcome, c⟩ := r
  cases outcome with
  | error e => rfl
  | ok _ => exact keeps c

theorem flushValues_shard (c : Cleaning) : (c.flushValues plan).2.shard = c.shard := by
  unfold flushValues
  cases plan c.writes <;> rfl

theorem flushIndex_shard (c : Cleaning) : (c.flushIndex plan).2.shard = c.shard := by
  unfold flushIndex
  cases plan c.writes <;> rfl

theorem addValue_shard (value : Bytes) (c : Cleaning) : (addValue plan value c).2.shard = c.shard := by
  unfold addValue
  split
  · dsimp only
    split
    · exact flushValues_shard _
    · rfl
  · rfl

theorem appendEntry_shard (vlen : Nat) (c : Cleaning) : (appendEntry key vlen c).2.shard = c.shard := by
  simp only [appendEntry, encodeInto_zeros]
  split <;> rfl

theorem addEntry_shard (vlen : Nat) (c : Cleaning) : (addEntry plan key vlen c).2.shard = c.shard := by
  unfold addEntry
  rw [andThen_shard (appendEntry_shard vlen)]
  split
  · exact flushIndex_shard _
  · rfl

theorem visit_shard (plan : Nat → Option Nat) (c : Cleaning) (key : Bytes) :
    (c.visit plan key).2.shard = c.shard.load key := by
  unfold visit Shard.load
  generalize c.shard.get key = result
  obtain ⟨answer, shard⟩ := result
  cases answer with
  | error e => rfl
  | ok found =>
    cases found with
    | none => rfl
    | some value =>
      dsimp only
      rw [andThen_shard (addEntry_shard value.length), addValue_shard]

/-- A walk loads the keys up to the one where it ends. -/
theorem visitAll_shard (order : List Bytes) (c : Cleaning) :
    ∃ n, (visitAll plan order c).2.shard = Runs.exec Shard.load c.shard (order.take n) := by
  induction order generalizing c with
  | nil => exact ⟨0, rfl⟩
  | cons key rest ih =>
    have first := visit_shard plan c key
    rw [visitAll]
    generalize c.visit plan key = result at first
    obtain ⟨outcome, c₁⟩ := result
    cases outcome with
    | error e => exact ⟨1, first⟩
    | ok _ =>
      obtain ⟨n, later⟩ := ih c₁
      refine ⟨n + 1, ?_⟩
      rw [andThen_ok, later, List.take_succ_cons]
      dsimp only at first
      rw [first]
      rfl

theorem finish_shard (plan : Nat → Option Nat) (c : Cleaning) : (c.finish plan).2.shard = c.shard := by
  have index (c : Cleaning) :
      (if 0 < c.indexBuf.length then c.flushIndex plan else (.ok (), c)).2.shard = c.shard := by
    split
    · exact flushIndex_shard c
    · rfl
  unfold finish
  rw [andThen_shard index]
  split
  · exact flushValues_shard c
  · rfl

/-- A walk that ends well, and leaves nothing wrong in memory, has found every value. -/
theorem visitAll_finds {latest : Bytes → Option Bytes} {order : List Bytes} (backed : Backed c.shard latest)
    (known : ∀ key ∈ order, (latest key).isSome) (walked : visitAll plan order c = (.ok (), c'))
    (right : ∀ key ve value, c'.shard.data key = some ve → ve.payload = some value → latest key = some value) :
    Runs.Along Shard.load Shard.Finds c.shard order := by
  induction order generalizing c with
  | nil => trivial
  | cons key rest ih =>
    obtain ⟨c₁, visited, later⟩ := andThen_eq_ok walked
    have loaded : c₁.shard = c.shard.load key := by
      rw [← visit_shard plan c key, visited]
    have finds : c.shard.Finds key := by
      by_contra lost
      obtain ⟨value, last⟩ := Option.isSome_iff_exists.mp (known key (by simp))
      rcases backed.get_lost last lost with ⟨e, failed⟩ | ⟨ve, other, cached, held, wrong⟩
      · rw [visit] at visited
        generalize c.shard.get key = result at failed visited
        obtain ⟨answer, shard⟩ := result
        obtain rfl : answer = .error e := failed
        cases visited
      · obtain ⟨n, end_⟩ := visitAll_shard rest c₁
        rw [later] at end_
        have stays : c'.shard.data key = some ve := by
          rw [end_, loaded]
          exact Shard.loads_held cached held _
        have same := right key ve other stays held
        rw [last] at same
        exact wrong (Option.some.inj same).symm
    exact ⟨finds, by
      have rest := ih (loaded ▸ (backed.find finds).2) (fun other inside => known other (by simp [inside])) later
      rwa [loaded] at rest⟩

end Cleaning

/-- Cleaning up a readable map writes exactly its data if and only if every value fits the size field of
its record and every load finds its bytes at the position of the value file. -/
theorem cleanup_rewrites_iff (s : Shard) (latest : Bytes → Option Bytes) (backed : Backed s latest)
    (map : ∀ key, key ∈ s.keys ↔ (s.data key).isSome) (nodup : s.keys.Nodup) (order : List Bytes)
    (all : order.Perm s.keys) (short : ∀ key ∈ s.keys, key.length ≤ cleanupIndexBufferSize - 16)
    (room : ((liveBatch latest order).map WriteRequest.value).flatten.length < 2 ^ 63) :
    (∃ c entries, writeCleanupData never s [] [] order = (.ok (), c) ∧ CleanedUp latest order c entries) ↔
      (∀ key ∈ s.keys, ((latest key).getD []).length < 2 ^ 32) ∧
        Runs.Along Shard.load Shard.Finds s order := by
  have visited (key : Bytes) : key ∈ order ↔ (latest key).isSome :=
    all.mem_iff.trans ((map key).trans (backed.isSome_iff key))
  constructor
  · rintro ⟨c, entries, done, cleaned⟩
    constructor
    · intro key inside
      have recorded : key ∈ entries.map IndexEntry.key := by
        rw [cleaned.keys]
        exact all.mem_iff.mpr inside
      obtain ⟨ie, member, rfl⟩ := List.mem_map.mp recorded
      obtain ⟨value, last, placed⟩ := cleaned.values ie member
      have word := (readIndex_words c.tempIndex ie (by rw [cleaned.decoded]; exact member)).2
      rw [last, Option.getD_some, ← placed.size]
      exact word
    · obtain ⟨c₁, walked, finished⟩ := andThen_eq_ok done
      have same : c.shard = c₁.shard := by
        rw [← finish_shard never c₁, finished]
      refine visitAll_finds backed (fun key inside => (visited key).mp inside) walked ?_
      intro key ve value found held
      rw [← same] at found
      have answer := cleaned.reads key
      have updated : (c.shard.updateAfterCleanup c.tempIndex c.tempValue c.newOffsets c.newValueOffset).data
          key = some { ve with offset := (c.newOffsets.lookup key).getD ve.offset } := by
        simp [Shard.updateAfterCleanup, found]
      simp only [Shard.get, updated, Shard.getValue, held] at answer
      exact (Except.ok.inj answer).symm
  · rintro ⟨small, finds⟩
    exact cleanedUp_of_finds backed (all.nodup_iff.mpr nodup) visited
      (fun key inside => walIndexLen_le.mpr (short key (all.mem_iff.mp inside))) room
      (fun key inside => small key (all.mem_iff.mp inside)) finds

def threeBytesBatch : List WriteRequest := [⟨[97], [1], true⟩, ⟨[98], [2], true⟩, ⟨[99], [3], true⟩]

def threeBytesLatest : Bytes → Option Bytes := latestOf (fun _ => none) threeBytesBatch

def threeBytes : Shard :=
  ((({} : Shard).flush threeBytesBatch).map (fun s => Shard.reopen s.indexFile s.valueFile)).getD {}

theorem threeBytes_backed : Backed threeBytes threeBytesLatest := by
  have empty : Written {} (fun _ => none) := ⟨rfl, fun _ => rfl⟩
  have small : ∀ r ∈ threeBytesBatch, r.value.length < 2 ^ 32 := by decide
  exact (empty.flush small rfl).reopen_backed

/-- The keys are visited in the order of their offsets. -/
theorem threeBytes_cleaned_in_order : ∃ c entries,
    writeCleanupData never threeBytes [] [] [[97], [98], [99]] = (.ok (), c) ∧
      CleanedUp threeBytesLatest [[97], [98], [99]] c entries :=
  (cleanup_rewrites_iff threeBytes threeBytesLatest threeBytes_backed (Shard.reopen_replayed _ _).keys
    (Shard.reopen_replayed _ _).nodup [[97], [98], [99]] (by decide +kernel) (by decide +kernel)
    (by decide +kernel)).mpr ⟨by decide +kernel, by decide +kernel⟩

/-- The key at offset zero is visited second: the third value is taken for its own, and written under
its name. -/
theorem threeBytes_cleaned_out_of_order :
    (writeCleanupData never threeBytes [] [] [[98], [97], [99]]).1 = .ok () ∧
      (writeCleanupData never threeBytes [] [] [[98], [97], [99]]).2.tempValue = [2, 3, 3] ∧
      threeBytesLatest [97] = some [1] ∧
      ((writeCleanupData never threeBytes [] [] [[98], [97], [99]]).2.shard.get [97]).1 = .ok (some [3]) := by
  decide +kernel

end Engine

end Kvgo

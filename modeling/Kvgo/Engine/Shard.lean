import Kvgo.Raft.Message

/-! One shard of the engine (`shard.go`, `wal.go`, `group_committer.go`, `compaction.go`).

The index file is the list of its records, with the widths of the encoded fields; the
value file is its bytes together with the one position that reads and appends share. A
Go map is a partial function with the list of its keys. A request waits in the channel
or in the buffer of the group committer until it is flushed. -/

namespace Kvgo

namespace Engine

structure ValueEntry where
  /-- `none` is the nil payload of a value that was not loaded yet. -/
  payload : Option Bytes := none
  size : Nat
  offset : Nat := 0
  deriving DecidableEq, Repr

structure IndexEntry where
  key : Bytes
  valueSize : Nat
  valueOffset : Nat
  deriving DecidableEq, Repr

/-- The record that `encodeInto` writes: the size has 32 bits, the offset 64. The length of the key has 32 bits
as well, so the record reads back if the key is shorter than that (`openShard_indexBytes`). -/
def encodeEntry (key : Bytes) (vsize voffset : Nat) : IndexEntry where
  key := key
  valueSize := vsize % 2 ^ 32
  valueOffset := voffset % 2 ^ 64

structure WriteRequest where
  key : Bytes
  value : Bytes
  /-- A `put` waits for the answer on `respCh`; a `putAsync` has none. -/
  sync : Bool
  deriving DecidableEq, Repr

structure Shard where
  data : Bytes → Option ValueEntry := fun _ => none
  keys : List Bytes := []
  indexFile : List IndexEntry := []
  valueFile : Bytes := []
  position : Nat := 0
  valueOffset : Nat := 0
  pending : List WriteRequest := []

inductive ReadError where
  | invalidRead
  | eof
  | corruption
  deriving DecidableEq, Repr

namespace Shard

def setEntry (s : Shard) (key : Bytes) (ve : ValueEntry) : Shard :=
  { s with
    data := Function.update s.data key (some ve)
    keys := if (s.data key).isSome then s.keys else s.keys ++ [key] }

def putInternal (s : Shard) (key value : Bytes) : Shard :=
  s.setEntry key { payload := some value, size := value.length }

def put (s : Shard) (key value : Bytes) : Shard :=
  { s with pending := s.pending ++ [⟨key, value, true⟩] }

def putAsync (s : Shard) (key value : Bytes) : Shard :=
  let s := s.putInternal key value
  { s with pending := s.pending ++ [⟨key, value, false⟩] }

/-- The index records of a batch whose first value goes to `valueFileOff`. -/
def encodeBatch (valueFileOff : Nat) : List WriteRequest → List IndexEntry
  | [] => []
  | r :: rest =>
    encodeEntry r.key r.value.length valueFileOff ::
      encodeBatch (valueFileOff + r.value.length) rest

/-- The value file is opened with `O_APPEND`: a write goes to the end and moves the
position there, unless there is nothing to write. A file cannot outgrow its offset type. -/
def writeValue (s : Shard) (data : Bytes) : Option Shard :=
  if 2 ^ 63 ≤ s.valueFile.length + data.length then none
  else some { s with
    valueFile := s.valueFile ++ data
    position := if data = [] then s.position else s.valueFile.length + data.length }

/-- What a flushed batch does to the memory: a `put` is applied, a `putAsync` already was. -/
def applySync (s : Shard) (batch : List WriteRequest) : Shard :=
  batch.foldl (fun s r => if r.sync then s.putInternal r.key r.value else s) s

/-- `flush`; `none` is the panic after a failed write. -/
def flush (s : Shard) (batch : List WriteRequest) : Option Shard := do
  let values := (batch.map WriteRequest.value).flatten
  let index := encodeBatch s.valueOffset batch
  let s' ← s.writeValue values
  some ({ s' with
    indexFile := s'.indexFile ++ index
    valueOffset := s.valueOffset + values.length }.applySync batch)

def flushPending (s : Shard) (n : Nat) : Option Shard :=
  { s with pending := s.pending.drop n }.flush (s.pending.take n)

/-- `readValue`: the seek is skipped for offset zero, and a short read truncates the file. -/
def readValue (s : Shard) (offset size : Nat) : Except ReadError Bytes × Shard :=
  if 2 ^ 63 ≤ offset ∨ size = 0 then (.error .invalidRead, s)
  else
    let position := if 0 < offset then offset else s.position
    let rest := s.valueFile.drop position
    if rest = [] then (.error .eof, { s with position })
    else if rest.length < size then
      (.error .corruption, { s with
        valueFile := s.valueFile.take offset, position := s.valueFile.length })
    else (.ok (rest.take size), { s with position := position + size })

/-- `getValue` caches what it loads. -/
def getValue (s : Shard) (key : Bytes) (ve : ValueEntry) : Except ReadError Bytes × Shard :=
  match ve.payload with
  | some value => (.ok value, s)
  | none =>
    if ve.size = 0 then (.ok [], s.setEntry key { ve with payload := some [] })
    else
      match s.readValue ve.offset ve.size with
      | (.error e, s) => (.error e, s)
      | (.ok value, s) => (.ok value, s.setEntry key { ve with payload := some value })

/-- `get`; `none` reports an absent key. -/
def get (s : Shard) (key : Bytes) : Except ReadError (Option Bytes) × Shard :=
  match s.data key with
  | none => (.ok none, s)
  | some ve =>
    match s.getValue key ve with
    | (.error e, s) => (.error e, s)
    | (.ok value, s) => (.ok (some value), s)

def reopen (indexFile : List IndexEntry) (valueFile : Bytes) : Shard :=
  indexFile.foldl
    (fun s ie => s.setEntry ie.key { size := ie.valueSize, offset := ie.valueOffset })
    { indexFile, valueFile, valueOffset := valueFile.length }

def snapshot (s : Shard) (order : List Bytes) : List IndexEntry :=
  order.filterMap (fun key => (s.data key).map (fun ve => encodeEntry key ve.size ve.offset))

def doCompact (s : Shard) (order : List Bytes) : Shard :=
  let indices := s.snapshot order
  if indices = [] then s else { s with indexFile := indices }

/-! What replaying an index gives. -/

def lookup (index : List IndexEntry) (key : Bytes) : Option IndexEntry :=
  index.foldl (fun found ie => if ie.key = key then some ie else found) none

theorem lookup_append (index : List IndexEntry) (ie : IndexEntry) (key : Bytes) :
    lookup (index ++ [ie]) key = if ie.key = key then some ie else lookup index key := by
  simp [lookup]

theorem lookup_mem {index : List IndexEntry} {key : Bytes} {ie : IndexEntry}
    (found : lookup index key = some ie) : ie ∈ index ∧ ie.key = key := by
  induction index using List.reverseRecOn with
  | nil => cases found
  | append_singleton index last ih =>
    rw [lookup_append] at found
    split at found
    · rename_i same
      cases found
      exact ⟨by simp, same⟩
    · obtain ⟨inside, same⟩ := ih found
      exact ⟨by simp [inside], same⟩

theorem lookup_eq_none {index : List IndexEntry} {key : Bytes} :
    lookup index key = none ↔ ∀ ie ∈ index, ie.key ≠ key := by
  induction index using List.reverseRecOn with
  | nil => simp [lookup]
  | append_singleton index last ih =>
    rw [lookup_append]
    split
    · rename_i same
      simp only [reduceCtorEq, false_iff]
      exact fun none => none last (by simp) same
    · rename_i other
      rw [ih]
      constructor
      · intro none ie inside
        rcases List.mem_append.mp inside with old | new
        · exact none ie old
        · rw [List.mem_singleton.mp new]; exact other
      · exact fun none ie inside => none ie (by simp [inside])

theorem lookup_append_index (first second : List IndexEntry) (key : Bytes) :
    lookup (first ++ second) key = (lookup second key).or (lookup first key) := by
  induction second using List.reverseRecOn with
  | nil => simp [lookup]
  | append_singleton second last ih =>
    rw [← List.append_assoc, lookup_append, lookup_append, ih]
    split <;> rfl

theorem lookup_of_mem {index : List IndexEntry} (nodup : (index.map IndexEntry.key).Nodup) {ie : IndexEntry}
    (inside : ie ∈ index) : lookup index ie.key = some ie := by
  cases found : lookup index ie.key with
  | none => exact absurd rfl (lookup_eq_none.mp found ie inside)
  | some other =>
    obtain ⟨member, same⟩ := lookup_mem found
    rw [List.inj_on_of_nodup_map nodup member inside same]

/-- The map, its keys and the untouched fields of a shard that replays an index. -/
structure Replayed (indexFile index : List IndexEntry) (valueFile : Bytes) (s : Shard) : Prop where
  data : ∀ key, s.data key =
    (lookup index key).map (fun ie => { size := ie.valueSize, offset := ie.valueOffset })
  keys : ∀ key, key ∈ s.keys ↔ (s.data key).isSome
  nodup : s.keys.Nodup
  index : s.indexFile = indexFile
  values : s.valueFile = valueFile
  position : s.position = 0
  offset : s.valueOffset = valueFile.length
  pending : s.pending = []

theorem setEntry_data (s : Shard) (key : Bytes) (ve : ValueEntry) (other : Bytes) :
    (s.setEntry key ve).data other = if other = key then some ve else s.data other := by
  simp [setEntry, Function.update_apply]

theorem setEntry_keys {s : Shard} (known : ∀ key, key ∈ s.keys ↔ (s.data key).isSome) (key : Bytes)
    (ve : ValueEntry) :
    ∀ other, other ∈ (s.setEntry key ve).keys ↔ ((s.setEntry key ve).data other).isSome := by
  intro other
  have here := known other
  by_cases same : other = key
  · subst same
    by_cases there : (s.data other).isSome
    · simp [setEntry, there, here]
    · simp [setEntry, there]
  · by_cases there : (s.data key).isSome <;> simp [setEntry, there, here, same]

theorem setEntry_nodup {s : Shard} (known : ∀ key, key ∈ s.keys ↔ (s.data key).isSome)
    (nodup : s.keys.Nodup) (key : Bytes) (ve : ValueEntry) : (s.setEntry key ve).keys.Nodup := by
  unfold setEntry
  dsimp only
  split
  · exact nodup
  · rename_i absent
    refine List.nodup_append.mpr ⟨nodup, List.nodup_singleton _, fun a inside b new same => ?_⟩
    rw [List.mem_singleton] at new
    exact absent ((known key).mp (new ▸ same ▸ inside))

theorem reopen_replayed (indexFile : List IndexEntry) (valueFile : Bytes) :
    Replayed indexFile indexFile valueFile (reopen indexFile valueFile) := by
  have build : ∀ index : List IndexEntry, Replayed indexFile index valueFile (index.foldl
      (fun s ie => s.setEntry ie.key { size := ie.valueSize, offset := ie.valueOffset })
      ({ indexFile, valueFile, valueOffset := valueFile.length } : Shard)) := by
    intro index
    induction index using List.reverseRecOn with
    | nil => exact ⟨fun _ => rfl, by simp, by simp, rfl, rfl, rfl, rfl, rfl⟩
    | append_singleton index last ih =>
      rw [List.foldl_append, List.foldl_cons, List.foldl_nil]
      refine ⟨fun key => ?_, setEntry_keys ih.keys _ _, setEntry_nodup ih.keys ih.nodup _ _,
        ih.index, ih.values, ih.position, ih.offset, ih.pending⟩
      rw [lookup_append, setEntry_data]
      by_cases same : last.key = key
      · simp [same]
      · rw [if_neg (Ne.symm same), if_neg same]
        exact ih.data key
  exact build indexFile

end Shard

end Engine

end Kvgo

import Kvgo.Raft.LogShape

/-! The files behind `DurableStorage` (`storage.go`, `segment.go`, `wal.go`): sealed
segments, the segment that is written to, and the snapshot file. A frame is modelled by
the batch it decodes to, its size is kept; `Raft/Directory` gives the bytes and the names of
the files. The last index of a segment, which the source keeps in `segLastIdx`, is always
that of its last batch with entries. -/

namespace Kvgo

structure Batch where
  hard : HardState
  entries : List Entry
  deriving DecidableEq, Repr

def frameHeaderSize : Nat := 4

def hardStateBytes : Nat := 24

def entrySize (e : Entry) : Nat := 8 + 8 + e.data.length

def Batch.size (b : Batch) : Nat :=
  frameHeaderSize + (hardStateBytes + frameHeaderSize +
    (b.entries.map (fun e => frameHeaderSize + entrySize e)).sum)

abbrev Segment := List Batch

def Segment.size (seg : Segment) : Nat := (seg.map Batch.size).sum

def segLastIdx (seg : Segment) : Option Nat :=
  (seg.filterMap (fun b => b.entries.getLast?.map Entry.index)).getLast?

structure Files where
  sealed : List Segment := []
  current : Segment := []
  snapshot : SnapshotMeta := {}
  /-- The number in the name of the current segment. -/
  seq : Nat := 0
  deriving DecidableEq, Repr

namespace Files

def batches (f : Files) : List Batch := f.sealed.flatten ++ f.current

def write (f : Files) (b : Batch) : Files := { f with current := f.current ++ [b] }

def maybeCut (f : Files) (segmentLimit : Nat) : Files :=
  if segmentLimit ≤ Segment.size f.current then
    { f with sealed := f.sealed ++ [f.current], current := [], seq := f.seq + 1 }
  else f

def save (f : Files) (segmentLimit : Nat) (s : MemStorage) (entries : List Entry)
    (hard : Option HardState) : Files :=
  if entries = [] ∧ isEmptyHardState hard then f
  else (f.write ⟨s.effectiveHard hard, entries⟩).maybeCut segmentLimit

def persistSnapshotMeta (f : Files) (snap : SnapshotMeta) : Files := { f with snapshot := snap }

def deleteOldSegments (f : Files) : Files :=
  { f with
    sealed := f.sealed.dropWhile (fun seg =>
      match segLastIdx seg with
      | none => true
      | some i => decide (i ≤ f.snapshot.lastIncludedIndex)) }

def compact (f : Files) (s s' : MemStorage) : Files :=
  if s'.snap = s.snap then f else (f.persistSnapshotMeta s'.snap).deleteOldSegments

/-- One batch of `replayLog`; `none` is a failure to open the directory. -/
def replayBatch (s : MemStorage) (b : Batch) : Option MemStorage :=
  match { s with hd := b.hard }.truncateAndAppend
      (MemStorage.filterRetainedEntries b.entries s.snap.lastIncludedIndex) with
  | .ok (s', none) => some s'
  | _ => none

def replay (snap : SnapshotMeta) (batches : List Batch) : Option MemStorage :=
  batches.foldlM replayBatch { snap }

/-- Opening the directory: `openDirectory` on its files, if these read back (`Fit.opens`). -/
def reopen (f : Files) : Option MemStorage := replay f.snapshot f.batches

@[simp] theorem maybeCut_batches (f : Files) (limit : Nat) : (f.maybeCut limit).batches = f.batches := by
  unfold maybeCut
  split
  · simp [batches]
  · rfl

@[simp] theorem maybeCut_snapshot (f : Files) (limit : Nat) : (f.maybeCut limit).snapshot = f.snapshot := by
  unfold maybeCut
  split <;> rfl

@[simp] theorem write_batches (f : Files) (b : Batch) : (f.write b).batches = f.batches ++ [b] := by
  simp [write, batches]

theorem save_snapshot (f : Files) (limit : Nat) (s : MemStorage) (entries : List Entry)
    (hard : Option HardState) : (f.save limit s entries hard).snapshot = f.snapshot := by
  unfold save
  split
  · rfl
  · simp [write]

theorem replay_append (snap : SnapshotMeta) (before : List Batch) (b : Batch) :
    replay snap (before ++ [b]) = (replay snap before).bind (replayBatch · b) := by
  unfold replay
  rw [List.foldlM_append]
  cases before.foldlM replayBatch { snap } with
  | none => rfl
  | some s => exact bind_pure (replayBatch s b)

theorem replayBatch_snap {s s' : MemStorage} {b : Batch} (ok : replayBatch s b = some s') :
    s'.snap = s.snap := by
  unfold replayBatch at ok
  split at ok
  · rename_i s'' done
    cases ok
    exact MemStorage.truncateAndAppend_snap (s := { s with hd := b.hard }) done
  · cases ok

theorem replay_snap {snap : SnapshotMeta} {batches : List Batch} {s : MemStorage}
    (ok : replay snap batches = some s) : s.snap = snap := by
  induction batches using List.reverseRecOn generalizing s with
  | nil => cases ok; rfl
  | append_singleton before b ih =>
    rw [replay_append] at ok
    obtain ⟨s', earlier, last⟩ := Option.bind_eq_some_iff.mp ok
    exact (replayBatch_snap last).trans (ih earlier)

/-- Without a boundary a saved batch is replayed as it was saved. -/
theorem reopen_save {f : Files} {s s' : MemStorage} {limit : Nat} {entries : List Entry}
    {hard : Option HardState} (opened : f.reopen = some s) (whole : s.snap.lastIncludedIndex = 0)
    (ok : s.save entries hard = .ok (s', none)) : (f.save limit s entries hard).reopen = some s' := by
  unfold MemStorage.save at ok
  unfold Files.save
  split at ok
  · rename_i nothing
    cases ok
    rw [if_pos nothing]
    exact opened
  · rename_i something
    rw [if_neg something, reopen, maybeCut_batches, write_batches, maybeCut_snapshot, replay_append]
    show (f.reopen).bind _ = _
    rw [opened]
    show replayBatch s _ = _
    unfold replayBatch
    rw [MemStorage.filterRetainedEntries, if_pos whole, ok]

end Files

end Kvgo

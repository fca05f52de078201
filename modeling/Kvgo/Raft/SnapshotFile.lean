import Kvgo.Raft.Codec
import Kvgo.Raft.Wal
import Kvgo.Raft.Recovery

/-! The file of the snapshot metadata (`storage.go`, `message.go`). `persistSnapshotMeta` empties the file
before it writes the new frame, so a process that ends in between, or a write that fails, leaves no
metadata at all; and without it a directory whose first segments were deleted does not open any more. -/

namespace Kvgo

open Words

def snapshotMetaBytes : Nat := 16

namespace Codec

def encodeSnapshotMeta (s : SnapshotMeta) : Bytes := le 8 s.lastIncludedIndex ++ le 8 s.lastIncludedTerm

def decodeSnapshotMeta (data : Bytes) : Except Panic (Except CodecError SnapshotMeta) :=
  if data.length ≠ snapshotMetaBytes then .ok (.error .unexpectedBytes)
  else do
    let index ← word 8 (← sub data 0 8)
    let term ← word 8 (← sub data 8 16)
    return .ok ⟨index, term⟩

def MetaWords (s : SnapshotMeta) : Prop := s.lastIncludedIndex < 2 ^ 64 ∧ s.lastIncludedTerm < 2 ^ 64

instance (s : SnapshotMeta) : Decidable (MetaWords s) := inferInstanceAs (Decidable (_ ∧ _))

@[simp] theorem encodeSnapshotMeta_length (s : SnapshotMeta) :
    (encodeSnapshotMeta s).length = snapshotMetaBytes := by
  simp [encodeSnapshotMeta, snapshotMetaBytes]

theorem decodeSnapshotMeta_encodeSnapshotMeta {s : SnapshotMeta} (words : MetaWords s) :
    decodeSnapshotMeta (encodeSnapshotMeta s) = .ok (.ok s) := by
  have size : (encodeSnapshotMeta s).length = 16 := encodeSnapshotMeta_length s
  have first : ((encodeSnapshotMeta s).take 8).drop 0 = le 8 s.lastIncludedIndex := by simp [encodeSnapshotMeta]
  have second : ((encodeSnapshotMeta s).take 16).drop 8 = le 8 s.lastIncludedTerm := by
    rw [List.take_of_length_le size.le]
    simp [encodeSnapshotMeta]
  have whole (n : Nat) (fits : n < 2 ^ 64) : word 8 (le 8 n) = .ok n := by
    rw [word_ok (by simp), List.take_of_length_le (by simp), ofLE_word fits]
  rw [decodeSnapshotMeta, if_neg (not_not.mpr (encodeSnapshotMeta_length s)), sub_ok (by omega) (by omega),
    sub_ok (by omega) (by omega), first, second]
  simp only [bind, Except.bind, whole _ words.1, whole _ words.2]
  rfl

end Codec

open Codec Wal

/-- The loop of `replaySnapshotMeta` from a position on. -/
def replayMetaFrom : Nat → Bytes → Nat → SnapshotMeta → SnapshotMeta × SegmentEnd
  | 0, _, _, snap => (snap, .failed)
  | fuel + 1, file, position, snap =>
    match read file file.length position with
    | .error .eof => (snap, .done)
    | .error .tailCorruption => (snap, .torn position)
    | .ok batch =>
      match decodeSnapshotMeta batch with
      | .ok (.ok snap) => replayMetaFrom fuel file (position + (frameHeaderSize + batch.length)) snap
      | _ => (snap, .failed)

/-- The metadata and what is left of the file; `none` is `ErrCorruption`. Every round of the loop reads at
least a header. -/
def replaySnapshotMeta (file : Bytes) : Option (SnapshotMeta × Bytes) :=
  match replayMetaFrom (file.length + 1) file 0 {} with
  | (snap, .done) => some (snap, file)
  | (snap, .torn position) => some (snap, file.take position)
  | (_, .failed) => none

def metaWritten (snap : SnapshotMeta) (k : Nat) : Bytes := (frame (encodeSnapshotMeta snap)).take k

structure MetaStore where
  file : Bytes := []
  snap : SnapshotMeta := {}
  deriving DecidableEq, Repr

inductive MetaEvent where
  /-- `compactLocked` or `ApplySnapshot`; the callers keep the snapshot in memory. -/
  | persist (snap : SnapshotMeta)
  /-- The write fails after so many bytes, or the sync after all of them, and an error is returned. -/
  | fail (snap : SnapshotMeta) (k : Nat)
  /-- The process ends after so many bytes and the directory is opened again. -/
  | torn (snap : SnapshotMeta) (k : Nat)
  | restart

def MetaEvent.snap? : MetaEvent → Option SnapshotMeta
  | .persist snap | .fail snap _ | .torn snap _ => some snap
  | .restart => none

namespace MetaStore

def restart (m : MetaStore) : Option MetaStore :=
  (replaySnapshotMeta m.file).map fun (snap, file) => { file, snap }

def step (m : MetaStore) : MetaEvent → Option MetaStore
  | .persist snap => some { file := frame (encodeSnapshotMeta snap), snap }
  | .fail snap k => some { m with file := metaWritten snap k }
  | .torn snap k => restart { m with file := metaWritten snap k }
  | .restart => m.restart

def run (events : List MetaEvent) : Option MetaStore := events.foldlM step {}

end MetaStore

/-! ### What the metadata is -/

structure MetaCell where
  durable : SnapshotMeta := {}
  memory : SnapshotMeta := {}

def lands (snap : SnapshotMeta) (k : Nat) : SnapshotMeta :=
  if frameHeaderSize + snapshotMetaBytes ≤ k then snap else {}

def MetaCell.step (c : MetaCell) : MetaEvent → MetaCell
  | .persist snap => ⟨snap, snap⟩
  | .fail snap k => { c with durable := lands snap k }
  | .torn snap k => ⟨lands snap k, lands snap k⟩
  | .restart => { c with memory := c.durable }

def MetaCell.run (events : List MetaEvent) : MetaCell := Runs.exec MetaCell.step {} events

structure MetaStore.Holds (m : MetaStore) (c : MetaCell) : Prop where
  memory : m.snap = c.memory
  file : ∃ snap k, MetaWords snap ∧ m.file = metaWritten snap k ∧ c.durable = lands snap k

theorem metaWritten_length (snap : SnapshotMeta) : (frame (encodeSnapshotMeta snap)).length =
    frameHeaderSize + snapshotMetaBytes := by
  rw [frame_length, encodeSnapshotMeta_length]

theorem metaWritten_all {snap : SnapshotMeta} {k : Nat} (whole : frameHeaderSize + snapshotMetaBytes ≤ k) :
    metaWritten snap k = frame (encodeSnapshotMeta snap) :=
  List.take_of_length_le (by rw [metaWritten_length]; exact whole)

theorem small_meta (snap : SnapshotMeta) : (encodeSnapshotMeta snap).length < 2 ^ 32 := by
  rw [encodeSnapshotMeta_length]
  decide

theorem replaySnapshotMeta_whole {snap : SnapshotMeta} (words : MetaWords snap) :
    replaySnapshotMeta (frame (encodeSnapshotMeta snap)) = some (snap, frame (encodeSnapshotMeta snap)) := by
  have first : read (frame (encodeSnapshotMeta snap)) (frame (encodeSnapshotMeta snap)).length 0 =
      .ok (encodeSnapshotMeta snap) := by
    have found := read_frame (small_meta snap) [] [] (le_refl _)
    rwa [List.nil_append, List.append_nil] at found
  have second := read_end (frame (encodeSnapshotMeta snap)) (frame (encodeSnapshotMeta snap)).length
  rw [frame_length] at second
  have fuel : (frame (encodeSnapshotMeta snap)).length + 1 = 19 + 1 + 1 := by rw [metaWritten_length]; rfl
  unfold replaySnapshotMeta
  rw [fuel, replayMetaFrom, first]
  simp only [decodeSnapshotMeta_encodeSnapshotMeta words, Nat.zero_add]
  rw [replayMetaFrom, frame_length, second]

theorem replaySnapshotMeta_written {snap : SnapshotMeta} (words : MetaWords snap) (k : Nat) :
    replaySnapshotMeta (metaWritten snap k) =
      some (lands snap k, if frameHeaderSize + snapshotMetaBytes ≤ k then metaWritten snap k else []) := by
  unfold lands
  split
  · next whole => rw [metaWritten_all whole, replaySnapshotMeta_whole words]
  next short =>
  rcases Nat.eq_zero_or_pos k with rfl | positive
  · rfl
  · have torn : read (metaWritten snap k) (metaWritten snap k).length 0 = .error .tailCorruption := by
      have short' : k < (frame (encodeSnapshotMeta snap)).length := by rw [metaWritten_length]; omega
      have found := @read_torn _ (metaWritten snap k).length (small_meta snap) [] [] k positive short'
      rwa [List.nil_append, List.append_nil] at found
    unfold replaySnapshotMeta
    rw [replayMetaFrom, torn]
    rfl

namespace MetaStore

theorem Holds.restart {m : MetaStore} {c : MetaCell} (holds : m.Holds c) :
    ∃ m', m.restart = some m' ∧ m'.Holds { c with memory := c.durable } := by
  obtain ⟨snap, k, words, file, durable⟩ := holds.file
  rw [MetaStore.restart, file, replaySnapshotMeta_written words]
  refine ⟨_, rfl, durable.symm, ?_⟩
  by_cases whole : frameHeaderSize + snapshotMetaBytes ≤ k
  · exact ⟨snap, k, words, if_pos whole, durable⟩
  · refine ⟨snap, 0, words, if_neg whole, ?_⟩
    rw [durable, lands, if_neg whole]
    rfl

theorem Holds.step {m : MetaStore} {c : MetaCell} (holds : m.Holds c) {e : MetaEvent}
    (words : ∀ snap ∈ e.snap?, MetaWords snap) : ∃ m', m.step e = some m' ∧ m'.Holds (c.step e) := by
  cases e with
  | persist snap =>
    refine ⟨_, rfl, rfl, snap, frameHeaderSize + snapshotMetaBytes, words snap rfl, (metaWritten_all le_rfl).symm, ?_⟩
    exact (if_pos le_rfl).symm
  | fail snap k => exact ⟨_, rfl, holds.memory, snap, k, words snap rfl, rfl, rfl⟩
  | torn snap k =>
    have cut : Holds { m with file := metaWritten snap k } { c with durable := lands snap k } :=
      ⟨holds.memory, snap, k, words snap rfl, rfl, rfl⟩
    exact cut.restart
  | restart => exact holds.restart

theorem run_holds {events : List MetaEvent} (words : ∀ e ∈ events, ∀ snap ∈ e.snap?, MetaWords snap) :
    ∃ m, run events = some m ∧ m.Holds (MetaCell.run events) := by
  have start : Holds {} {} := ⟨rfl, {}, 0, by decide, rfl, rfl⟩
  unfold run MetaCell.run
  generalize ({} : MetaStore) = m at start ⊢
  generalize ({} : MetaCell) = c at start ⊢
  induction events generalizing m c with
  | nil => exact ⟨m, rfl, start⟩
  | cons e rest ih =>
    obtain ⟨m', stepped, holds⟩ := start.step (words e (by simp))
    rw [List.foldlM_cons, stepped]
    exact ih (fun e inside => words e (by simp [inside])) _ _ holds

/-- However persists, failed writes, crashes at any byte and restarts follow each other, the directory can be
read, and what a start finds is the metadata of the last attempt to persist if its frame was written to the
last byte, and no metadata otherwise: the old metadata never survives an attempt. -/
theorem metadata_is_of_the_last_attempt (events : List MetaEvent)
    (words : ∀ e ∈ events, ∀ snap ∈ e.snap?, MetaWords snap) :
    ∃ m left, run events = some m ∧ m.snap = (MetaCell.run events).memory ∧
      replaySnapshotMeta m.file = some ((MetaCell.run events).durable, left) := by
  obtain ⟨m, ran, holds⟩ := run_holds words
  obtain ⟨snap, k, fits, file, durable⟩ := holds.file
  exact ⟨m, _, ran, holds.memory, by rw [file, replaySnapshotMeta_written fits, durable]⟩

def cutSecond : List MetaEvent := [.persist ⟨3, 1⟩, .torn ⟨5, 1⟩ 19]

theorem cutSecond_forgets : (MetaCell.run [.persist ⟨3, 1⟩]).durable = ⟨3, 1⟩ ∧
    (MetaCell.run cutSecond).durable = {} ∧
    ∃ m left, run cutSecond = some m ∧ m.snap = (MetaCell.run cutSecond).memory ∧
      replaySnapshotMeta m.file = some ((MetaCell.run cutSecond).durable, left) :=
  ⟨rfl, rfl, metadata_is_of_the_last_attempt cutSecond (by decide)⟩

end MetaStore

/-! ### The directory -/

def openStorage (metaFile : Bytes) (batches : List Batch) : Option MemStorage :=
  (replaySnapshotMeta metaFile).bind fun (snap, _) => Files.replay snap batches

/-- A log that does not start at the first index is not replayed without a boundary. -/
theorem replay_gap {batches : List Batch} {e : Entry} {s : MemStorage}
    (first : (batches.flatMap Batch.entries).head? = some e) (later : e.index ≠ 1) (none : s.entries = [])
    (unbounded : s.snap.lastIncludedIndex = 0) : batches.foldlM Files.replayBatch s = Option.none := by
  induction batches generalizing s with
  | nil => cases first
  | cons b rest ih =>
    rw [List.foldlM_cons]
    cases entries : b.entries with
    | nil =>
      have kept : Files.replayBatch s b = some { s with hd := b.hard } := by
        simp [Files.replayBatch, entries, MemStorage.filterRetainedEntries, unbounded, MemStorage.truncateAndAppend]
      rw [kept]
      refine ih ?_ none unbounded
      rwa [List.flatMap_cons, entries, List.nil_append] at first
    | cons e' more =>
      have same : e' = e := by
        rw [List.flatMap_cons, entries] at first
        exact Option.some.inj first
      have refused : Files.replayBatch s b = Option.none := by
        simp [Files.replayBatch, entries, MemStorage.filterRetainedEntries, unbounded, MemStorage.truncateAndAppend,
          none, same, later]
      rw [refused]
      rfl

/-- The directory after a persist that was cut: it opens with the new boundary if the frame is whole; if it is
not, and the segment with the first entry was deleted before, it does not open at all. -/
theorem torn_persist_blocks_opening (f : Files) (fits : MetaWords f.snapshot) {snap : SnapshotMeta}
    (words : MetaWords snap) :
    openStorage (frame (encodeSnapshotMeta f.snapshot)) f.batches = f.reopen ∧
      (∀ k, frameHeaderSize + snapshotMetaBytes ≤ k →
        openStorage (metaWritten snap k) f.batches = (f.persistSnapshotMeta snap).reopen) ∧
      ∀ k, k < frameHeaderSize + snapshotMetaBytes → ∀ e, (f.batches.flatMap Batch.entries).head? = some e →
        e.index ≠ 1 → openStorage (metaWritten snap k) f.batches = none := by
  refine ⟨?_, fun k whole => ?_, fun k short e first later => ?_⟩
  · rw [openStorage, replaySnapshotMeta_whole fits]
    rfl
  · rw [openStorage, replaySnapshotMeta_written words, lands, if_pos whole]
    rfl
  · rw [openStorage, replaySnapshotMeta_written words, lands, if_neg (by omega)]
    exact replay_gap first later rfl rfl

def compactedThree : Store := Runs.exec (Store.step 1 1) {}
  [.save [⟨1, 1, []⟩, ⟨2, 1, []⟩, ⟨3, 1, []⟩] (some ⟨1, 0, 3⟩), .save [⟨4, 1, []⟩] (some ⟨1, 0, 4⟩), .maybeCompact 3]

theorem compactedThree_blocked : compactedThree.files.reopen.isSome = true ∧
    openStorage (frame (encodeSnapshotMeta compactedThree.files.snapshot)) compactedThree.files.batches =
      compactedThree.files.reopen ∧
    (openStorage (metaWritten ⟨4, 1⟩ (frameHeaderSize + snapshotMetaBytes)) compactedThree.files.batches).map
      MemStorage.snap = some ⟨4, 1⟩ ∧
    openStorage (metaWritten ⟨4, 1⟩ 0) compactedThree.files.batches = none := by
  obtain ⟨before, whole, after⟩ :=
    @torn_persist_blocks_opening compactedThree.files (by decide +kernel) ⟨4, 1⟩ (by decide)
  refine ⟨by decide +kernel, before, ?_, after 0 (by decide) ⟨4, 1, []⟩ (by decide +kernel) (by decide)⟩
  rw [whole _ (Nat.le_refl _)]
  decide +kernel

end Kvgo

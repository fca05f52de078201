import Kvgo.Raft.Codec
import Kvgo.Raft.Wal

/-! The files of a `DurableStorage` as bytes: the segments under their names, and opening the directory. The
frames read back as the batches that were written as long as their lengths fit four bytes and the numbers of the
segments have eight digits. -/

namespace Kvgo

open Wal Codec

def Batch.encode (b : Batch) : Bytes := encodeSaveBatch b.hard b.entries

/-- A batch that the codec gives back: words of 64 bits, and a length that fits its header. -/
structure Batch.Encodable (b : Batch) : Prop where
  hard : HardWords b.hard
  entries : ∀ e ∈ b.entries, EntryWords e
  short : b.encode.length < 2 ^ 32

instance (b : Batch) : Decidable b.Encodable :=
  decidable_of_iff (HardWords b.hard ∧ (∀ e ∈ b.entries, EntryWords e) ∧ b.encode.length < 2 ^ 32)
    ⟨fun ⟨hard, entries, short⟩ => ⟨hard, entries, short⟩, fun fits => ⟨fits.hard, fits.entries, fits.short⟩⟩

/-- The batch that `replayLog` decodes; an error ends the replay. -/
def Batch.decode (bytes : Bytes) : Option Batch :=
  match decodeSaveBatch bytes with
  | .ok (some hard, entries, none) => some ⟨hard, entries⟩
  | _ => none

theorem Batch.Encodable.decode {b : Batch} (fits : b.Encodable) : Batch.decode b.encode = some b := by
  have small : entryBytes b.entries < 2 ^ 32 := by
    have short := fits.short
    simp only [Batch.encode, encodeSaveBatch, List.length_append, encodeFrames_length] at short
    omega
  unfold Batch.decode Batch.encode
  rw [decodeSaveBatch_encodeSaveBatch _ _ fits.hard fits.entries small]

theorem decode_segment {seg : Segment} (fits : ∀ b ∈ seg, b.Encodable) :
    (seg.map Batch.encode).mapM Batch.decode = some seg := by
  induction seg with
  | nil => rfl
  | cons b seg ih =>
    rw [List.map_cons, List.mapM_cons, (fits b (by simp)).decode, ih (fun b inside => fits b (by simp [inside]))]
    rfl

namespace Files

def bytes (f : Files) : Bytes := frames (f.current.map Batch.encode)

/-- Opening the directory when the current segment's file holds `file`: a frame that is not
whole at its end is cut off. -/
def recover (f : Files) (file : Bytes) : Option MemStorage :=
  ((readSegmentFrames (fun _ => true) file file.length 0).1.mapM Batch.decode).bind fun current =>
    ({ f with current } : Files).reopen

def firstSeq (f : Files) : Nat := f.seq - f.sealed.length

/-- The directory if the current segment's file holds `file`. -/
def dirWith (f : Files) (file : Bytes) : Dir where
  names := (List.range' f.firstSeq (f.sealed.length + 1)).map segmentName
  content name :=
    match parseSegmentSeq name with
    | none => []
    | some seq =>
      if seq = f.seq then file else frames ((f.sealed.getD (seq - f.firstSeq) []).map Batch.encode)

def dir (f : Files) : Dir := f.dirWith f.bytes

end Files

def readBatches (d : Dir) : Option (List Batch) :=
  let log := (SegmentedWAL.newSegmentedWAL d).readAll
  if log.error = none then log.batches.mapM Batch.decode else none

/-- `NewDiskStorage` on a directory: `replayLog` gets the batches of the segments, and its error ends it. -/
def openDirectory (d : Dir) (snapshot : SnapshotMeta) : Option MemStorage :=
  (readBatches d).bind (Files.replay snapshot)

namespace Files

structure Fit (f : Files) : Prop where
  encodable : ∀ b ∈ f.batches, b.Encodable
  few : f.seq < 10 ^ 8
  count : f.sealed.length ≤ f.seq

variable {f : Files}

theorem readSegmentFrames_ends (file : Bytes) (size pos : Nat) :
    (readSegmentFrames (fun _ => true) file size pos).2 ≠ .failed := by
  fun_induction readSegmentFrames (fun _ => true) file size pos with
  | case1 => simp
  | case2 => simp
  | case3 _ _ _ _ _ ih => exact ih
  | case4 => simp_all

theorem Fit.dirWith_segments (fit : f.Fit) (file : Bytes) :
    SegmentedWAL.newSegmentedWAL (f.dirWith file) =
      ⟨f.dirWith file, (List.range' f.firstSeq f.sealed.length).map segmentName ++ [segmentName f.seq],
        segmentName f.seq, file.length⟩ := by
  have top : f.firstSeq + f.sealed.length = f.seq := Nat.sub_add_cancel fit.count
  have few := fit.few
  have names : (f.dirWith file).names =
      (List.range' f.firstSeq f.sealed.length).map segmentName ++ [segmentName f.seq] := by
    rw [dirWith, List.range'_1_concat, List.map_append, List.map_singleton, top]
  have listed : (f.dirWith file).listSegments = (f.dirWith file).names := by
    have parsed : (f.dirWith file).names.filter (fun name => (parseSegmentSeq name).isSome) =
        (List.range' f.firstSeq (f.sealed.length + 1)).map segmentName := by
      rw [List.filter_eq_self.mpr fun name inside => ?_]
      · rfl
      · obtain ⟨seq, -, rfl⟩ := List.mem_map.mp inside
        rw [parseSegmentSeq_eq]
        rfl
    refine Dir.listSegments_rising parsed (List.pairwise_lt_range') fun seq inside => ?_
    have := List.mem_range'_1.mp inside
    omega
  have final : (f.dirWith file).listSegments.getLast? = some (segmentName f.seq) := by
    rw [listed, names, List.getLast?_concat]
  rw [SegmentedWAL.newSegmentedWAL_last final (by rw [names]; simp), listed, names]
  have content : (f.dirWith file).content (segmentName f.seq) = file := by
    simp only [dirWith, parseSegmentSeq_segmentName few, if_true]
  rw [content]

/-- The sealed segments are read in the order in which they were made, and then what is whole of the current
one. -/
theorem Fit.readAll_dirWith (fit : f.Fit) (file : Bytes) :
    (SegmentedWAL.newSegmentedWAL (f.dirWith file)).readAll.batches =
        f.sealed.flatten.map Batch.encode ++ (readSegmentFrames (fun _ => true) file file.length 0).1 ∧
      (SegmentedWAL.newSegmentedWAL (f.dirWith file)).readAll.error = none := by
  have top : f.firstSeq + f.sealed.length = f.seq := Nat.sub_add_cancel fit.count
  have few := fit.few
  have opened := fit.dirWith_segments file
  obtain ⟨pairs, names, contents, whole⟩ : ∃ pairs : List (Name × List Bytes),
      pairs.map Prod.fst = (List.range' f.firstSeq f.sealed.length).map segmentName ∧
      pairs.map Prod.snd = f.sealed.map (List.map Batch.encode) ∧
      ∀ p ∈ pairs, p.1 ∈ (f.dirWith file).names ∧ (f.dirWith file).content p.1 = frames p.2 ∧ Small p.2 := by
    refine ⟨((List.range' f.firstSeq f.sealed.length).map segmentName).zip (f.sealed.map (List.map Batch.encode)),
      List.map_fst_zip (by simp), List.map_snd_zip (by simp), fun p inside => ?_⟩
    obtain ⟨i, here⟩ := List.mem_iff_getElem?.mp inside
    obtain ⟨name, batches⟩ := List.getElem?_zip_eq_some.mp here
    have low : i < f.sealed.length := by simpa using (List.getElem?_eq_some_iff.mp batches).1
    rw [List.getElem?_map, List.getElem?_range' low, Option.map_some, Nat.one_mul] at name
    rw [List.getElem?_map, List.getElem?_eq_getElem low, Option.map_some] at batches
    rw [← Option.some.inj name, ← Option.some.inj batches]
    refine ⟨List.mem_map_of_mem (List.mem_range'_1.mpr (by omega)), ?_, fun bytes member => ?_⟩
    · have other : ¬f.firstSeq + i = f.seq := by omega
      simp only [dirWith, parseSegmentSeq_segmentName (show f.firstSeq + i < 10 ^ 8 by omega), if_neg other]
      rw [Nat.add_sub_cancel_left, List.getD_eq_getElem _ _ low]
    · obtain ⟨b, written, rfl⟩ := List.mem_map.mp member
      refine (fit.encodable b (List.mem_append_left _ ?_)).short
      exact List.mem_flatten_of_mem (List.getElem_mem low) written
  rw [opened] at *
  generalize sealing : ({ dir := f.dirWith file
                          segments := _
                          current := segmentName f.seq
                          size := file.length } : SegmentedWAL) = sw
  have content : sw.dir.content sw.current = file := by
    rw [← sealing]
    simp only [dirWith, parseSegmentSeq_segmentName few, if_true]
  have size : sw.size = file.length := by rw [← sealing]
  have last : (SegmentedWAL.readFrom (fun _ _ => true) sw [segmentName f.seq]).batches =
        (readSegmentFrames (fun _ => true) file file.length 0).1 ∧
      (SegmentedWAL.readFrom (fun _ _ => true) sw [segmentName f.seq]).error = none := by
    have ends := readSegmentFrames_ends file file.length 0
    rw [SegmentedWAL.readFrom, content, size]
    cases finish : (readSegmentFrames (fun _ => true) file file.length 0).2 with
    | done => simp [SegmentedWAL.ReadResult.batches]
    | torn goodPos => simp [SegmentedWAL.ReadResult.batches]
    | failed => exact absurd finish ends
  have inside : ∀ p ∈ pairs, p.1 ∈ sw.dir.names ∧ sw.dir.content p.1 = frames p.2 ∧ Small p.2 := by
    rw [← sealing]
    exact whole
  obtain ⟨first, second, -⟩ := SegmentedWAL.readFrom_whole pairs (show [segmentName f.seq] ≠ [] by simp) inside
  have segments : sw.segments = pairs.map Prod.fst ++ [segmentName f.seq] := by rw [← sealing, names]
  rw [SegmentedWAL.readAll, segments, first, second, contents, last.1, last.2, List.map_flatten]
  exact ⟨rfl, rfl⟩

theorem readSegmentFrames_bytes (fits : ∀ c ∈ f.current, c.Encodable) :
    (readSegmentFrames (fun _ => true) f.bytes f.bytes.length 0).1 = f.current.map Batch.encode := by
  have small : Small (f.current.map Batch.encode) := by
    intro c inside
    obtain ⟨c, member, rfl⟩ := List.mem_map.mp inside
    exact (fits c member).short
  have file : (frames (f.current.map Batch.encode)).take f.bytes.length = f.bytes := List.take_length
  have all : survivors f.bytes.length (f.current.map Batch.encode) = f.current.map Batch.encode :=
    survivors_all (Nat.le_refl _)
  have read := readSegmentFrames_cut small [] f.bytes.length
    (show _ ≤ f.bytes.length by rw [List.nil_append, file])
  rw [List.nil_append, List.length_nil, file, all] at read
  rw [read]

theorem recover_bytes (fits : ∀ c ∈ f.current, c.Encodable) : f.recover f.bytes = f.reopen := by
  rw [recover, readSegmentFrames_bytes fits, decode_segment fits]
  rfl

theorem Fit.readBatches_dirWith (fit : f.Fit) (file : Bytes) : readBatches (f.dirWith file) =
    ((readSegmentFrames (fun _ => true) file file.length 0).1.mapM Batch.decode).map (f.sealed.flatten ++ ·) := by
  obtain ⟨batches, error⟩ := fit.readAll_dirWith file
  have front : (f.sealed.flatten.map Batch.encode).mapM Batch.decode = some f.sealed.flatten :=
    decode_segment fun b inside => fit.encodable b (List.mem_append_left _ inside)
  unfold readBatches
  dsimp only
  rw [if_pos error, batches, List.mapM_append, front]
  cases (readSegmentFrames (fun _ => true) file file.length 0).1.mapM Batch.decode <;> rfl

theorem Fit.openDirectory_dirWith (fit : f.Fit) (file : Bytes) :
    openDirectory (f.dirWith file) f.snapshot = f.recover file := by
  rw [openDirectory, fit.readBatches_dirWith, recover]
  cases (readSegmentFrames (fun _ => true) file file.length 0).1.mapM Batch.decode <;> rfl

theorem Fit.opens (fit : f.Fit) : openDirectory f.dir f.snapshot = f.reopen := by
  rw [dir, fit.openDirectory_dirWith, recover_bytes fun b inside => fit.encodable b (List.mem_append_right _ inside)]

theorem Fit.reads (fit : f.Fit) : readBatches f.dir = some f.batches := by
  have whole := readSegmentFrames_bytes fun b inside => fit.encodable b (List.mem_append_right _ inside)
  rw [dir, fit.readBatches_dirWith, whole, decode_segment fun b inside =>
    fit.encodable b (List.mem_append_right _ inside)]
  rfl

/-! The operations keep the files readable. -/

theorem fit_empty : ({} : Files).Fit := ⟨by simp [batches], by decide, Nat.le_refl _⟩

theorem Fit.write (fit : f.Fit) {b : Batch} (last : b.Encodable) : (f.write b).Fit := by
  refine ⟨fun c inside => ?_, fit.few, fit.count⟩
  rw [write_batches] at inside
  rcases List.mem_append.mp inside with old | new
  · exact fit.encodable c old
  · rw [List.mem_singleton.mp new]
    exact last

theorem Fit.maybeCut (fit : f.Fit) (limit : Nat) (room : f.seq + 1 < 10 ^ 8) : (f.maybeCut limit).Fit := by
  refine ⟨by rw [maybeCut_batches]; exact fit.encodable, ?_, ?_⟩
  · unfold Files.maybeCut
    split
    · exact room
    · exact fit.few
  · have := fit.count
    unfold Files.maybeCut
    split
    · simp only [List.length_append, List.length_singleton]
      omega
    · exact this

theorem Fit.save (fit : f.Fit) {limit : Nat} {s : MemStorage} {entries : List Entry} {hard : Option HardState}
    (last : (⟨s.effectiveHard hard, entries⟩ : Batch).Encodable) (room : f.seq + 1 < 10 ^ 8) :
    (f.save limit s entries hard).Fit := by
  unfold Files.save
  split
  · exact fit
  · exact (fit.write last).maybeCut limit room

theorem Fit.compact (fit : f.Fit) (s s' : MemStorage) : (f.compact s s').Fit := by
  unfold Files.compact
  split
  · exact fit
  · refine ⟨fun b inside => fit.encodable b ?_, fit.few, ?_⟩
    · rcases List.mem_append.mp inside with old | new
      · obtain ⟨seg, there, here⟩ := List.mem_flatten.mp old
        exact List.mem_append_left _ (List.mem_flatten_of_mem ((List.dropWhile_sublist _).subset there) here)
      · exact List.mem_append_right _ new
    · exact (List.dropWhile_sublist _).length_le.trans fit.count

end Files

end Kvgo

import Kvgo.Raft.Recovery

/-! A `Save` that returns an error. The batch is written and synced, and the segment may be
rotated, before the entries are looked at; each of these steps can fail. The current segment
is taken as the bytes of its file here, since a failed write leaves a part of a frame behind. -/

namespace Kvgo

open Wal Codec

namespace Files

variable {f : Files} {b : Batch}

end Files

/-- How the input and output of a `Save` goes. -/
inductive SaveIO where
  | fine
  /-- The write or its sync fails, and `n` bytes of the frame are found afterwards. -/
  | flush (n : Nat)
  /-- The rotation fails; the next file may exist already. -/
  | cut (created : Bool)
  deriving DecidableEq

inductive SaveError where
  | io
  | storage (e : StorageError)
  deriving DecidableEq

structure SaveOutcome where
  mem : MemStorage
  files : Files
  /-- The file of the current segment. -/
  file : Bytes
  error : Option SaveError

namespace Store

open Files MemStorage

def batch (st : Store) (entries : List Entry) (hard : Option HardState) : Batch :=
  ⟨st.mem.effectiveHard hard, entries⟩

/-- The rest of `Save` once the batch is on disk and the segment is rotated. -/
def finishSave (limit : Nat) (st : Store) (entries : List Entry) (hard : Option HardState) :
    Except Panic SaveOutcome := do
  let (mem, err) ← st.mem.save entries hard
  let files := st.files.save limit st.mem entries hard
  .ok { mem, files, file := files.bytes, error := err.map .storage }

def save (limit : Nat) (st : Store) (entries : List Entry) (hard : Option HardState) (io : SaveIO) :
    Except Panic SaveOutcome :=
  if entries = [] ∧ isEmptyHardState hard then
    .ok { mem := st.mem, files := st.files, file := st.files.bytes, error := none }
  else
    let b := st.batch entries hard
    match io with
    | .fine => st.finishSave limit entries hard
    | .flush n =>
      .ok { mem := st.mem, files := st.files, file := st.files.bytes ++ (frame b.encode).take n,
            error := some .io }
    | .cut created =>
      if limit ≤ Segment.size (st.files.write b).current then
        let files := if created then (st.files.write b).maybeCut limit else st.files.write b
        .ok { mem := st.mem, files, file := files.bytes, error := some .io }
      else st.finishSave limit entries hard

/-- The directory holds the state in memory, whose entries start right behind the boundary. -/
structure Settled (st : Store) : Prop where
  opens : openDirectory st.files.dir st.files.snapshot = some st.mem
  stored : st.mem.Stored (st.mem.snap.lastIncludedIndex + 1)
  fit : st.files.Fit

def Connects (s : MemStorage) (entries : List Entry) : Prop :=
  ∀ e ∈ entries.head?, if s.entries = [] then e.index = s.snap.lastIncludedIndex + 1 else e.index ≤ s.lastIndex + 1

end Store

namespace MemStorage

open Store

variable {s s' : MemStorage} {entries : List Entry}

theorem Stored.expected (s : MemStorage) :
    (if 0 < s.snap.lastIncludedIndex then s.snap.lastIncludedIndex + 1 else 1) =
      s.snap.lastIncludedIndex + 1 := by
  split <;> omega

/-- A batch is taken exactly if it connects. -/
theorem Stored.taken_iff (stored : Stored s (s.snap.lastIncludedIndex + 1)) :
    (∃ s', s.truncateAndAppend entries = .ok (s', none)) ↔ Connects s entries := by
  have last := stored.lastIndex
  cases entries with
  | nil => exact ⟨fun _ => by simp [Connects], fun _ => ⟨s, rfl⟩⟩
  | cons e rest =>
    have head : Connects s (e :: rest) ↔
        if s.entries = [] then e.index = s.snap.lastIncludedIndex + 1 else e.index ≤ s.lastIndex + 1 := by
      simp [Connects]
    rw [head]
    unfold MemStorage.truncateAndAppend
    simp only [Stored.expected]
    by_cases none : s.entries = []
    · rw [if_pos none, if_pos none]
      by_cases next : e.index = s.snap.lastIncludedIndex + 1
      · simp [next]
      · simp [next]
    · rw [if_neg none, if_neg none, stored.firstIndex none]
      by_cases gap : s.lastIndex + 1 < e.index
      · rw [if_neg (by omega), if_pos gap]
        simp
        omega
      · refine ⟨fun _ => by omega, fun _ => ?_⟩
        by_cases next : e.index = s.lastIndex + 1
        · rw [if_pos next]
          exact ⟨_, rfl⟩
        rw [if_neg next, if_neg gap]
        by_cases low : e.index ≤ s.snap.lastIncludedIndex + 1
        · rw [if_pos low]
          exact ⟨_, rfl⟩
        · rw [if_neg low, if_neg (by omega)]
          exact ⟨_, rfl⟩

/-- Entries from above the boundary keep the slice above it. -/
theorem Stored.head_above (stored : Stored s (s.snap.lastIncludedIndex + 1)) (some : s.entries ≠ [])
    (above : ∀ e ∈ entries.head?, s.snap.lastIncludedIndex < e.index)
    (ok : s.truncateAndAppend entries = .ok (s', none)) :
    ∀ e ∈ s'.entries.head?, s.snap.lastIncludedIndex < e.index := by
  have first := stored.firstIndex some
  have old : ∀ e ∈ s.entries.head?, s.snap.lastIncludedIndex < e.index := by
    intro e here
    have place := stored.indexed 0 e (by rw [← List.head?_eq_getElem?]; exact here)
    omega
  cases entries with
  | nil =>
    cases ok
    exact old
  | cons d rest =>
    unfold MemStorage.truncateAndAppend at ok
    simp only [if_neg some, first] at ok
    split at ok
    · cases ok
      rw [List.head?_append_of_ne_nil _ some]
      exact old
    split at ok
    · cases ok
    split at ok
    · cases ok
      exact above
    · rename_i inner
      split at ok
      · cases ok
      · cases ok
        have front : s.entries.take (d.index - (s.snap.lastIncludedIndex + 1)) ≠ [] := by
          intro none
          rcases List.take_eq_nil_iff.mp none with zero | empty
          · omega
          · exact some empty
        rw [List.head?_append_of_ne_nil _ front, List.head?_take, if_neg (by omega)]
        exact old

/-- A batch that is replayed as it was taken loses nothing to the boundary. -/
theorem Stored.retained (stored : Stored s (s.snap.lastIncludedIndex + 1))
    (ok : s.truncateAndAppend entries = .ok (s', none))
    (again : s.truncateAndAppend (filterRetainedEntries entries s.snap.lastIncludedIndex) = .ok (s', none)) :
    filterRetainedEntries entries s.snap.lastIncludedIndex = entries := by
  have last := stored.lastIndex
  cases entries with
  | nil =>
    unfold filterRetainedEntries
    split <;> rfl
  | cons e rest =>
    by_contra differ
    have positive : s.snap.lastIncludedIndex ≠ 0 := fun zero => differ (if_pos zero)
    have low : e.index ≤ s.snap.lastIncludedIndex := by
      by_contra above
      apply differ
      unfold filterRetainedEntries
      split
      · rfl
      · rw [List.dropWhile_cons_of_neg (by simpa using Nat.lt_of_not_le above)]
    have connects := stored.taken_iff.mp ⟨s', ok⟩ e rfl
    have some : s.entries ≠ [] := by
      intro none
      rw [if_pos none] at connects
      omega
    have long := List.length_pos_iff.mpr some
    -- memory is replaced by the batch, whose first entry is not above the boundary
    have replaced : s'.entries = e :: rest := by
      unfold MemStorage.truncateAndAppend at ok
      simp only [if_neg some, stored.firstIndex some] at ok
      rw [if_neg (by omega), if_neg (by omega), if_pos (by omega)] at ok
      cases ok
      rfl
    have above := stored.head_above some (fun d here => ?_) again e (by rw [replaced]; rfl)
    · omega
    · unfold filterRetainedEntries at here
      rw [if_neg positive] at here
      have kept := List.head?_dropWhile_not (fun d => decide (d.index ≤ s.snap.lastIncludedIndex)) (e :: rest)
      rw [here] at kept
      simpa using kept

end MemStorage

namespace Store

open Files MemStorage

variable {st : Store} {entries : List Entry} {hard : Option HardState}

theorem Consistent.settled (consistent : Consistent st) (fit : st.files.Fit) (log : LogRecovered st)
    (hard : HardRecovered st) : Settled st := by
  obtain ⟨s, opened, snap, entries⟩ := log
  obtain ⟨s', opened', hd⟩ := hard
  obtain rfl : s = s' := Option.some.inj (opened.symm.trans opened')
  have same : s.hd = st.mem.hd := hd.trans consistent.hard.symm
  refine ⟨opened.trans (congrArg some ?_), consistent.stored, fit⟩
  cases s
  cases snap
  cases entries
  cases same
  rfl

theorem reopen_write (f : Files) (b : Batch) : (f.write b).reopen = f.reopen.bind (replayBatch · b) := by
  rw [reopen, write_batches, replay_append]
  rfl

theorem Settled.reopens (settled : Settled st) : st.files.reopen = some st.mem :=
  settled.fit.opens.symm.trans settled.opens

theorem Settled.encodable (settled : Settled st) : ∀ b ∈ st.files.current, b.Encodable :=
  fun b inside => settled.fit.encodable b (List.mem_append_right _ inside)

theorem Settled.write (settled : Settled st) (b : Batch) : (st.files.write b).reopen = replayBatch st.mem b := by
  rw [reopen_write, settled.reopens]
  rfl

end Store

end Kvgo
